import Mathlib.Data.List.DropRight
import Mathlib.Data.List.Infix
import Mathlib.Logic.Function.Basic

/-! # File trees

Files, directories and symbolic links under one root, how the system follows a path among them, and the calls that read
and change them. -/

namespace FileTree

abbrev Name := List Char

inductive Node where
  | file (content : List UInt8)
  | dir
  | link (target : List Char)
  deriving DecidableEq

/-- What stands at each path from the root. Only in a directory does anything stand. -/
structure Tree where
  node : List Name → Option Node
  root : node [] = some .dir
  parent : ∀ path name, node (path ++ [name]) ≠ none → node path = some .dir

inductive Error where
  | notFound
  | notADirectory
  | isADirectory
  | alreadyExists
  | loop
  | invalidInput
  deriving DecidableEq

/-! ### Paths -/

/-- A path as it is written, between its slashes. -/
structure Path where
  absolute : Bool
  segments : List Name

namespace Path

def ofText (text : List Char) : Path := ⟨text.head? = some '/', text.splitOn '/'⟩

def isEmpty (path : Path) : Bool := !path.absolute && path.segments.all (·.isEmpty)

/-- `Path::join` -/
def join (path other : Path) : Path :=
  if other.absolute then other
  else if path.isEmpty then other
  else ⟨path.absolute, path.segments ++ other.segments⟩

def isPlain (name : Name) : Bool := name ≠ [] ∧ name ≠ ['.']

/-- `Path::components`: a dot stands for nothing, unless a relative path begins with it. -/
def components (path : Path) : List Name :=
  if path.absolute = false ∧ path.segments.head? = some ['.'] then ['.'] :: path.segments.filter isPlain
  else path.segments.filter isPlain

/-- `Path::parent` -/
def parent (path : Path) : Option Path :=
  if path.components = [] then none else some ⟨path.absolute, path.components.dropLast⟩

end Path

/-! ### Following a path -/

/-- Where a path leads: to something, or to a name that is free in a directory. -/
inductive Place where
  | found (path : List Name)
  | missing (dir : List Name) (name : Name)

/-- A segment that stands for nothing. -/
def IsDot (name : Name) : Prop := name = [] ∨ name = ['.']

instance (name : Name) : Decidable (IsDot name) := inferInstanceAs (Decidable (_ ∨ _))

/-- Follows segments from a directory. The target of a link is followed by `follow`. -/
def descend (t : Tree) (follow : List Name → List Name → Except Error Place) : List Name → List Name → Except Error Place
  | cur, [] => .ok (.found cur)
  | cur, name :: rest =>
    if t.node cur ≠ some .dir then .error .notADirectory
    else if IsDot name then descend t follow cur rest
    else if name = ['.', '.'] then descend t follow cur.dropLast rest
    else
      match t.node (cur ++ [name]) with
      | none => if rest = [] then .ok (.missing cur name) else .error .notFound
      | some (.link target) => follow (if target.head? = some '/' then [] else cur) (target.splitOn '/' ++ rest)
      | some _ => descend t follow (cur ++ [name]) rest

/-- What the target of a link is followed by, when a number of links may still be followed. -/
def followed (t : Tree) : Nat → List Name → List Name → Except Error Place
  | 0 => fun _ _ => .error .loop
  | fuel + 1 => descend t (followed t fuel)

/-- Follows segments through a number of links. -/
def walk (t : Tree) (fuel : Nat) : List Name → List Name → Except Error Place := descend t (followed t fuel)

/-- As many links as the system follows. -/
def maxLinks : Nat := 40

section Calls
variable (t : Tree) (cwd : List Name)

def start (path : Path) : List Name := if path.absolute then [] else cwd

def lookup (path : Path) : Except Error Place :=
  if path.isEmpty then .error .notFound
  else if path.segments.any ('\x00' ∈ ·) then .error .invalidInput
  else walk t maxLinks (start cwd path) path.segments

/-- `fs::canonicalize` -/
def canonicalize (path : Path) : Except Error (List Name) :=
  match lookup t cwd path with
  | .ok (.found p) => .ok p
  | .ok (.missing _ _) => .error .notFound
  | .error e => .error e

/-- `Path::exists` -/
def pathExists (path : Path) : Bool := (canonicalize t cwd path).toBool

/-- `Path::is_dir` -/
def isDir (path : Path) : Bool :=
  match canonicalize t cwd path with
  | .ok p => t.node p = some .dir
  | .error _ => false

/-- `fs::read` of a canonical path. -/
def readAt (p : List Name) : Except Error (List UInt8) :=
  match t.node p with
  | some (.file content) => .ok content
  | some .dir => .error .isADirectory
  | some (.link _) => .error .loop
  | none => .error .notFound

end Calls

/-! ### Changing a tree -/

/-- What stands at a path is replaced, where no directory stands. -/
def Tree.put (t : Tree) (p : List Name) (node : Option Node) (hne : p ≠ []) (hdir : t.node p.dropLast = some .dir)
    (h : t.node p ≠ some .dir) : Tree where
  node := Function.update t.node p node
  root := by rw [Function.update_of_ne hne.symm, t.root]
  parent path name hpath := by
    by_cases heq : path ++ [name] = p
    · subst heq
      rw [List.dropLast_concat] at hdir
      rwa [Function.update_of_ne]
      exact fun heq => by simpa using congrArg List.length heq
    · rw [Function.update_of_ne heq] at hpath
      have hparent := t.parent path name hpath
      rwa [Function.update_of_ne]
      exact fun heq' => h (heq' ▸ hparent)

section Changes
variable (t : Tree) (cwd : List Name)

/-- The directory that the last segment of a path is looked up in. -/
def directory (path : Path) (above : List Name) : Except Error (List Name) :=
  if path.segments.any ('\x00' ∈ ·) then .error .invalidInput
  else
    match walk t maxLinks (start cwd path) above with
    | .ok (.found dir) => .ok dir
    | .ok (.missing _ _) => .error .notFound
    | .error e => .error e

/-- `mkdir`, which creates nothing over what there is. -/
def mkdir (path : Path) : Except Error Tree :=
  let segments := path.segments.rdropWhile (·.isEmpty)
  match segments.getLast? with
  | none => .error (if path.absolute then .alreadyExists else .notFound)
  | some name =>
    if name = ['.'] ∨ name = ['.', '.'] then
      match canonicalize t cwd path with
      | .ok _ => .error .alreadyExists
      | .error e => .error e
    else
      match directory t cwd path segments.dropLast with
      | .error e => .error e
      | .ok dir =>
        if hdir : t.node dir = some .dir then
          if h : t.node (dir ++ [name]) = none then
            .ok (t.put (dir ++ [name]) (some .dir) (by simp) (by simpa using hdir) (by simp [h]))
          else .error .alreadyExists
        else .error .notADirectory

/-- `fs::create_dir_all`, on the components of a path from the last one. -/
def createDirAll (t : Tree) (absolute : Bool) : List Name → Tree × Except Error Unit
  | [] => (t, .ok ())
  | name :: above =>
    let path : Path := ⟨absolute, (name :: above).reverse⟩
    let orDir (t : Tree) (e : Error) := (t, if isDir t cwd path then .ok () else .error e)
    match mkdir t cwd path with
    | .ok t' => (t', .ok ())
    | .error .notFound =>
      match createDirAll t absolute above with
      | (t', .error e) => (t', .error e)
      | (t', .ok ()) =>
        match mkdir t' cwd path with
        | .ok t'' => (t'', .ok ())
        | .error e => orDir t' e
    | .error e => orDir t e

/-- `fs::write` -/
def write (path : Path) (content : List UInt8) : Except Error Tree :=
  match lookup t cwd path with
  | .error e => .error e
  | .ok (.missing dir name) =>
    if h : t.node dir = some .dir ∧ t.node (dir ++ [name]) = none then
      .ok (t.put (dir ++ [name]) (some (.file content)) (by simp) (by simpa using h.1) (by simp [h.2]))
    else .error .notFound
  | .ok (.found p) =>
    if h : p ≠ [] ∧ t.node p.dropLast = some .dir ∧ t.node p ≠ some .dir then
      .ok (t.put p (some (.file content)) h.1 h.2.1 h.2.2)
    else .error .isADirectory

/-- `fs::remove_file`, which removes a link and not what it leads to. -/
def removeFile (path : Path) : Except Error Tree :=
  match path.segments.getLast? with
  | none => .error .notFound
  | some name =>
    if name = [] ∨ name = ['.'] ∨ name = ['.', '.'] then
      match canonicalize t cwd path with
      | .ok _ => .error .isADirectory
      | .error e => .error e
    else
      match directory t cwd path path.segments.dropLast with
      | .error e => .error e
      | .ok dir =>
        if hdir : t.node dir = some .dir then
          if h : t.node (dir ++ [name]) = some .dir then .error .isADirectory
          else if t.node (dir ++ [name]) = none then .error .notFound
          else .ok (t.put (dir ++ [name]) none (by simp) (by simpa using hdir) h)
        else .error .notADirectory

end Changes

@[simp] theorem Tree.put_node (t : Tree) (p : List Name) (node : Option Node) (hne hdir h) :
    (t.put p node hne hdir h).node = Function.update t.node p node := rfl

/-! ### Where a path leads -/

/-- How a path leads to what it names, through a number of links. -/
inductive Leads (t : Tree) : Nat → List Name → List Name → List Name → Prop
  | here {p : List Name} : Leads t 0 p [] p
  | stay {n : Nat} {cur rest p : List Name} {name : Name} (hdir : t.node cur = some .dir) (hname : IsDot name)
      (onward : Leads t n cur rest p) : Leads t n cur (name :: rest) p
  | up {n : Nat} {cur rest p : List Name} (hdir : t.node cur = some .dir) (onward : Leads t n cur.dropLast rest p) :
      Leads t n cur (['.', '.'] :: rest) p
  | down {n : Nat} {cur rest p : List Name} {name : Name} (hdir : t.node cur = some .dir)
      (hname : ¬IsDot name ∧ name ≠ ['.', '.']) (hnode : t.node (cur ++ [name]) ≠ none)
      (hfree : ∀ target, t.node (cur ++ [name]) ≠ some (.link target)) (onward : Leads t n (cur ++ [name]) rest p) :
      Leads t n cur (name :: rest) p
  | through {n : Nat} {cur rest p : List Name} {name : Name} {target : List Char} (hdir : t.node cur = some .dir)
      (hname : ¬IsDot name ∧ name ≠ ['.', '.']) (hlink : t.node (cur ++ [name]) = some (.link target))
      (onward : Leads t n (if target.head? = some '/' then [] else cur) (target.splitOn '/' ++ rest) p) :
      Leads t (n + 1) cur (name :: rest) p

section Leads
variable {t t' : Tree} {follow : List Name → List Name → Except Error Place} {cur c d p q : List Name}
  {segments rest : List Name} {name : Name} {n k fuel : Nat}

/-- What something stands below is a directory. -/
theorem Tree.dir_of_append (t : Tree) (h : t.node (p ++ q) ≠ none) (hne : q ≠ []) : t.node p = some .dir := by
  induction q using List.reverseRecOn with
  | nil => exact absurd rfl hne
  | append_singleton q name ih =>
    rw [← List.append_assoc] at h
    have hparent := t.parent _ _ h
    rcases eq_or_ne q [] with rfl | hq
    · rwa [List.append_nil] at hparent
    · exact ih (by rw [hparent]; simp) hq

theorem descend_stay (hdir : t.node cur = some .dir) (hname : IsDot name) :
    descend t follow cur (name :: rest) = descend t follow cur rest := by
  rw [descend, if_neg (by simp [hdir]), if_pos hname]

theorem descend_up (hdir : t.node cur = some .dir) :
    descend t follow cur (['.', '.'] :: rest) = descend t follow cur.dropLast rest := by
  rw [descend, if_neg (by simp [hdir]), if_neg (by simp [IsDot]), if_pos rfl]

theorem descend_down (hdir : t.node cur = some .dir) (hname : ¬IsDot name ∧ name ≠ ['.', '.'])
    (hnode : t.node (cur ++ [name]) ≠ none) (hfree : ∀ target, t.node (cur ++ [name]) ≠ some (.link target)) :
    descend t follow cur (name :: rest) = descend t follow (cur ++ [name]) rest := by
  rw [descend, if_neg (by simp [hdir]), if_neg hname.1, if_neg hname.2]
  match hat : t.node (cur ++ [name]) with
  | none => exact absurd hat hnode
  | some (.link target) => exact absurd hat (hfree target)
  | some (.file _) | some .dir => rfl

theorem descend_link {target : List Char} (hdir : t.node cur = some .dir) (hname : ¬IsDot name ∧ name ≠ ['.', '.'])
    (hlink : t.node (cur ++ [name]) = some (.link target)) :
    descend t follow cur (name :: rest) =
      follow (if target.head? = some '/' then [] else cur) (target.splitOn '/' ++ rest) := by
  rw [descend, if_neg (by simp [hdir]), if_neg hname.1, if_neg hname.2, hlink]

theorem descend_free (hdir : t.node cur = some .dir) (hname : ¬IsDot name ∧ name ≠ ['.', '.'])
    (hnode : t.node (cur ++ [name]) = none) :
    descend t follow cur (name :: rest) = if rest = [] then .ok (.missing cur name) else .error .notFound := by
  rw [descend, if_neg (by simp [hdir]), if_neg hname.1, if_neg hname.2, hnode]

/-- The way on from where a path leads. -/
theorem Leads.walk_append (h : Leads t n cur segments d) : walk t (n + k) cur (segments ++ rest) = walk t k d rest := by
  rw [walk]
  induction h with
  | here => rw [List.nil_append, Nat.zero_add, walk]
  | stay hdir hname _ ih => rw [List.cons_append, descend_stay hdir hname, ih]
  | up hdir _ ih => rw [List.cons_append, descend_up hdir, ih]
  | down hdir hname hnode hfree _ ih => rw [List.cons_append, descend_down hdir hname hnode hfree, ih]
  | through hdir hname hlink _ ih =>
    rw [List.append_assoc] at ih
    rw [List.cons_append, descend_link hdir hname hlink, Nat.add_right_comm, followed, ih]

theorem leads_of_descend
    (hfollow : ∀ cur segments, follow cur segments = .ok (.found c) → ∃ n < fuel, Leads t n cur segments c)
    (h : descend t follow cur segments = .ok (.found c)) : ∃ n ≤ fuel, Leads t n cur segments c := by
  induction segments generalizing cur with
  | nil =>
    cases h
    exact ⟨0, Nat.zero_le _, .here⟩
  | cons name rest ih =>
    by_cases hdir : t.node cur = some .dir
    · by_cases hdot : IsDot name
      · rw [descend_stay hdir hdot] at h
        obtain ⟨n, hn, hleads⟩ := ih h
        exact ⟨n, hn, .stay hdir hdot hleads⟩
      · by_cases hup : name = ['.', '.']
        · subst hup
          rw [descend_up hdir] at h
          obtain ⟨n, hn, hleads⟩ := ih h
          exact ⟨n, hn, .up hdir hleads⟩
        · match hat : t.node (cur ++ [name]) with
          | none =>
            rw [descend_free hdir ⟨hdot, hup⟩ hat] at h
            split at h <;> cases h
          | some (.link target) =>
            rw [descend_link hdir ⟨hdot, hup⟩ hat] at h
            obtain ⟨n, hn, hleads⟩ := hfollow _ _ h
            exact ⟨n + 1, hn, .through hdir ⟨hdot, hup⟩ hat hleads⟩
          | some (.file _) | some .dir =>
            have hnode : t.node (cur ++ [name]) ≠ none := by simp [hat]
            have hfree : ∀ target, t.node (cur ++ [name]) ≠ some (.link target) := by simp [hat]
            rw [descend_down hdir ⟨hdot, hup⟩ hnode hfree] at h
            obtain ⟨n, hn, hleads⟩ := ih h
            exact ⟨n, hn, .down hdir ⟨hdot, hup⟩ hnode hfree hleads⟩
    · rw [descend, if_pos hdir] at h
      cases h

theorem leads_of_walk (h : walk t fuel cur segments = .ok (.found c)) : ∃ n ≤ fuel, Leads t n cur segments c := by
  induction fuel generalizing cur segments with
  | zero => exact leads_of_descend (fun _ _ h => by cases h) h
  | succ fuel ih =>
    refine leads_of_descend (fun cur segments h => ?_) h
    obtain ⟨n, hn, hleads⟩ := ih h
    exact ⟨n, Nat.lt_succ_of_le hn, hleads⟩

theorem Leads.dir (h : Leads t n cur segments c) (hdir : t.node c = some .dir) : t.node cur = some .dir := by
  cases h <;> assumption

/-- Dots stand for nothing. -/
theorem Leads.filter (h : Leads t n cur (segments ++ rest) c) :
    Leads t n cur (segments ++ rest.filter Path.isPlain) c := by
  generalize hall : segments ++ rest = all at h
  induction h generalizing segments rest with
  | here =>
    obtain ⟨rfl, rfl⟩ := List.append_eq_nil_iff.mp hall
    exact .here
  | @stay n cur all p name hdir hname _ ih =>
    rcases segments with _ | ⟨first, segments⟩
    · subst hall
      rw [List.nil_append, List.filter_cons_of_neg]
      · exact @ih [] _ rfl
      · rcases hname with rfl | rfl <;> simp [Path.isPlain]
    · cases hall
      exact .stay hdir hname (ih rfl)
  | up hdir _ ih =>
    rcases segments with _ | ⟨first, segments⟩
    · subst hall
      exact .up hdir (@ih [] _ rfl)
    · cases hall
      exact .up hdir (ih rfl)
  | down hdir hname hnode hfree _ ih =>
    rcases segments with _ | ⟨first, segments⟩
    · subst hall
      rw [List.nil_append, List.filter_cons_of_pos]
      · exact .down hdir hname hnode hfree (@ih [] _ rfl)
      · simpa [Path.isPlain, IsDot, not_or] using hname.1
    · cases hall
      exact .down hdir hname hnode hfree (ih rfl)
  | through hdir hname hlink _ ih =>
    rcases segments with _ | ⟨first, segments⟩
    · subst hall
      rw [List.nil_append, List.filter_cons_of_pos]
      · exact .through hdir hname hlink (ih rfl)
      · simpa [Path.isPlain, IsDot, not_or] using hname.1
    · cases hall
      have honward := ih (List.append_assoc _ _ _)
      rw [List.append_assoc] at honward
      exact .through hdir hname hlink honward

/-- The last step to a name. -/
theorem Leads.last (h : Leads t n cur (segments ++ [name]) c) (hname : ¬IsDot name ∧ name ≠ ['.', '.']) :
    ∃ m ≤ n, ∃ d, Leads t m cur segments d ∧ t.node d = some .dir ∧ t.node (d ++ [name]) ≠ none := by
  generalize hall : segments ++ [name] = all at h
  induction h generalizing segments with
  | here => simp at hall
  | stay hdir hstay _ ih =>
    rcases segments with _ | ⟨first, segments⟩
    · cases hall
      exact absurd hstay hname.1
    · cases hall
      obtain ⟨m, hm, d, hd, hlast⟩ := ih rfl
      exact ⟨m, hm, d, .stay hdir hstay hd, hlast⟩
  | up hdir _ ih =>
    rcases segments with _ | ⟨first, segments⟩
    · cases hall
      exact absurd rfl hname.2
    · cases hall
      obtain ⟨m, hm, d, hd, hlast⟩ := ih rfl
      exact ⟨m, hm, d, .up hdir hd, hlast⟩
  | down hdir hfirst hnode hfree _ ih =>
    rcases segments with _ | ⟨first, segments⟩
    · cases hall
      exact ⟨0, Nat.zero_le _, _, .here, hdir, hnode⟩
    · cases hall
      obtain ⟨m, hm, d, hd, hlast⟩ := ih rfl
      exact ⟨m, hm, d, .down hdir hfirst hnode hfree hd, hlast⟩
  | through hdir hfirst hlink _ ih =>
    rcases segments with _ | ⟨first, segments⟩
    · cases hall
      exact ⟨0, Nat.zero_le _, _, .here, hdir, by simp [hlink]⟩
    · cases hall
      obtain ⟨m, hm, d, hd, hlast⟩ := ih (List.append_assoc _ _ _)
      exact ⟨m + 1, Nat.succ_le_succ hm, d, .through hdir hfirst hlink hd, hlast⟩

/-! ### Trees that keep their directories and links -/

structure Keeps (t t' : Tree) : Prop where
  dir : ∀ p, t.node p = some .dir → t'.node p = some .dir
  link : ∀ p target, t'.node p = some (.link target) ↔ t.node p = some (.link target)

theorem Keeps.refl : Keeps t t := ⟨fun _ h => h, fun _ _ => Iff.rfl⟩

theorem Keeps.trans {t'' : Tree} (h : Keeps t t') (h' : Keeps t' t'') : Keeps t t'' :=
  ⟨fun p hp => h'.dir p (h.dir p hp), fun p target => (h'.link p target).trans (h.link p target)⟩

/-- Where a path leads to a directory, it leads through directories and links. -/
theorem Leads.kept (h : Leads t n cur segments c) (hdir : t.node c = some .dir) (hkept : Keeps t t') :
    Leads t' n cur segments c := by
  induction h with
  | here => exact .here
  | stay hcur hname _ ih => exact .stay (hkept.dir _ hcur) hname (ih hdir)
  | up hcur _ ih => exact .up (hkept.dir _ hcur) (ih hdir)
  | down hcur hname _ _ onward ih =>
    have hthere := hkept.dir _ (onward.dir hdir)
    exact .down (hkept.dir _ hcur) hname (by simp [hthere]) (by simp [hthere]) (ih hdir)
  | through hcur hname hlink _ ih =>
    exact .through (hkept.dir _ hcur) hname ((hkept.link _ _).mpr hlink) (ih hdir)

end Leads

/-! ### Names below a directory -/

/-- A segment that leads down, and that the system takes. -/
structure IsName (name : Name) : Prop where
  down : ¬IsDot name ∧ name ≠ ['.', '.']
  solid : '\x00' ∉ name

/-- Names that lead down from a directory without links. -/
structure Way (t : Tree) (p names : List Name) : Prop where
  each : ∀ name ∈ names, IsName name
  free : ∀ q, q <+: names → ∀ target, t.node (p ++ q) ≠ some (.link target)

/-- Names below a path. -/
def below (base : Path) (names : List Name) : Path := ⟨base.absolute, base.segments ++ names⟩

/-- A path that leads to a directory. -/
structure Base (t : Tree) (cwd : List Name) (base : Path) (p : List Name) : Prop where
  solid : base.segments.any ('\x00' ∈ ·) = false
  leads : ∃ n ≤ maxLinks, Leads t n (start cwd base) base.segments p
  dir : t.node p = some .dir

/-- What is said of a path by where it leads. -/
def Place.Tells (t : Tree) (p : List Name) : Except Error Place → Prop
  | .ok (.found q) => q = p ∧ t.node p ≠ none
  | .ok (.missing dir name) => dir ++ [name] = p ∧ t.node dir = some .dir ∧ t.node p = none
  | .error _ => t.node p = none

section Below
variable {t t' : Tree} {follow : List Name → List Name → Except Error Place} {cwd cur p names : List Name}
  {base : Path} {name : Name} {e : Error}

theorem IsName.isPlain (h : IsName name) : Path.isPlain name := by
  simpa [Path.isPlain, IsDot, not_or] using h.down.1

theorem Way.head (h : Way t p (name :: names)) : IsName name := h.each name (by simp)

theorem Way.tail (h : Way t p (name :: names)) : Way t (p ++ [name]) names where
  each n hn := h.each n (by simp [hn])
  free q hq target := by
    rw [List.append_assoc]
    exact h.free _ (List.prefix_cons_inj name |>.mpr hq) target

theorem Way.of_prefix {names' : List Name} (h : Way t p names) (hle : names' <+: names) : Way t p names' :=
  ⟨fun n hn => h.each n (hle.subset hn), fun q hq => h.free q (hq.trans hle)⟩

theorem Way.kept (h : Way t p names) (hkept : Keeps t t') : Way t' p names :=
  ⟨h.each, fun q hq target => mt (hkept.link _ _).mp (h.free q hq target)⟩

theorem Base.kept (h : Base t cwd base p) (hkept : Keeps t t') : Base t' cwd base p :=
  ⟨h.solid, h.leads.imp fun _ hn => ⟨hn.1, hn.2.kept h.dir hkept⟩, hkept.dir _ h.dir⟩

/-- Names lead to what stands at the path that they make up. -/
theorem Way.tells (h : Way t cur names) (hcur : t.node cur ≠ none) :
    Place.Tells t (cur ++ names) (descend t follow cur names) := by
  induction names generalizing cur with
  | nil => exact ⟨(List.append_nil cur).symm, by rwa [List.append_nil]⟩
  | cons name rest ih =>
    by_cases hdir : t.node cur = some .dir
    · by_cases hat : t.node (cur ++ [name]) = none
      · rw [descend_free hdir h.head.down hat]
        by_cases hrest : rest = []
        · subst hrest
          exact ⟨rfl, hdir, hat⟩
        · rw [if_neg hrest]
          by_contra hsome
          rw [List.append_cons] at hsome
          have hparent := t.dir_of_append hsome hrest
          rw [hat] at hparent
          cases hparent
      · rw [descend_down hdir h.head.down hat (h.free [name] (by simp)), List.append_cons]
        exact ih h.tail hat
    · rw [descend, if_pos hdir]
      by_contra hsome
      exact hdir (t.dir_of_append hsome (by simp))

theorem base_of_canonicalize (h : canonicalize t cwd base = .ok p) (hdir : t.node p = some .dir) :
    Base t cwd base p := by
  rw [canonicalize, lookup] at h
  by_cases hempty : base.isEmpty = true
  · rw [if_pos hempty] at h
    cases h
  · rw [if_neg hempty] at h
    by_cases hsolid : base.segments.any ('\x00' ∈ ·) = true
    · rw [if_pos hsolid] at h
      cases h
    · rw [if_neg hsolid] at h
      refine ⟨eq_false_of_ne_true hsolid, ?_, hdir⟩
      match hwalk : walk t maxLinks (start cwd base) base.segments with
      | .ok (.found q) =>
        rw [hwalk] at h
        cases h
        exact leads_of_walk hwalk
      | .ok (.missing _ _) =>
        rw [hwalk] at h
        cases h
      | .error _ =>
        rw [hwalk] at h
        cases h

theorem Base.solid_append (h : Base t cwd base p) (hway : Way t p names) :
    (base.segments ++ names).any ('\x00' ∈ ·) = false := by
  rw [List.any_append, h.solid, Bool.false_or, List.any_eq_false]
  exact fun name hname => by simpa using (hway.each name hname).solid

/-- Where names below a directory lead. -/
theorem Base.walk_tells (h : Base t cwd base p) (hway : Way t p names) :
    Place.Tells t (p ++ names) (walk t maxLinks (start cwd base) (base.segments ++ names)) := by
  obtain ⟨n, hn, hleads⟩ := h.leads
  obtain ⟨k, hk⟩ := Nat.exists_eq_add_of_le hn
  rw [hk, hleads.walk_append]
  exact hway.tells (by simp [h.dir])

theorem Base.canonicalize_eq (h : Base t cwd base p) (hne : base.isEmpty = false) : canonicalize t cwd base = .ok p := by
  obtain ⟨n, hn, hleads⟩ := h.leads
  obtain ⟨k, hk⟩ := Nat.exists_eq_add_of_le hn
  have hwalk : walk t maxLinks (start cwd base) base.segments = .ok (.found p) := by
    rw [hk, ← List.append_nil base.segments, hleads.walk_append]
    rfl
  rw [canonicalize, lookup, if_neg (by simp [hne]), if_neg (by simp [h.solid]), hwalk]

theorem Base.tells (h : Base t cwd base p) (hway : Way t p names) (hne : names ≠ []) :
    Place.Tells t (p ++ names) (lookup t cwd (below base names)) := by
  have hempty : (below base names).isEmpty = false := by
    obtain ⟨name, hname⟩ := List.exists_mem_of_ne_nil names hne
    have hsome : name ≠ [] := fun hnil => (hway.each name hname).down.1 (.inl hnil)
    rw [Path.isEmpty, Bool.and_eq_false_iff, List.all_eq_false]
    exact .inr ⟨name, List.mem_append_right _ hname, by simpa using hsome⟩
  rw [lookup, if_neg (by simp [hempty]), if_neg (by simpa [below] using h.solid_append hway)]
  exact h.walk_tells hway

theorem Base.canonicalize_below (h : Base t cwd base p) (hway : Way t p names) (hne : names ≠ []) :
    (t.node (p ++ names) ≠ none ∧ canonicalize t cwd (below base names) = .ok (p ++ names)) ∨
      (t.node (p ++ names) = none ∧ ∃ e, canonicalize t cwd (below base names) = .error e) := by
  have htells := h.tells hway hne
  rw [canonicalize]
  match hlookup : lookup t cwd (below base names) with
  | .ok (.found q) =>
    rw [hlookup] at htells
    exact .inl ⟨htells.2, by rw [htells.1]⟩
  | .ok (.missing _ _) =>
    rw [hlookup] at htells
    exact .inr ⟨htells.2.2, _, rfl⟩
  | .error e =>
    rw [hlookup] at htells
    exact .inr ⟨htells, _, rfl⟩

/-- A file is written where no directory stands. -/
theorem Base.write_below (h : Base t cwd base p) (hway : Way t p names) (hne : names ≠ []) {content : List UInt8}
    (hwrite : write t cwd (below base names) content = .ok t') :
    t'.node = Function.update t.node (p ++ names) (some (.file content)) ∧ t.node (p ++ names) ≠ some .dir := by
  have htells := h.tells hway hne
  rw [write] at hwrite
  match hlookup : lookup t cwd (below base names) with
  | .ok (.found q) =>
    rw [hlookup] at htells hwrite
    dsimp only at hwrite
    split at hwrite
    · rename_i hput
      cases hwrite
      rw [← htells.1]
      exact ⟨rfl, hput.2.2⟩
    · cases hwrite
  | .ok (.missing dir name) =>
    rw [hlookup] at htells hwrite
    dsimp only at hwrite
    split at hwrite
    · rename_i hput
      cases hwrite
      rw [← htells.1]
      exact ⟨rfl, by rw [hput.2]; simp⟩
    · cases hwrite
  | .error e =>
    rw [hlookup] at hwrite
    cases hwrite

/-- The directory that a last name is looked up in. -/
theorem Base.directory_below (h : Base t cwd base p) (hway : Way t p (names ++ [name])) :
    (∃ e, directory t cwd (below base (names ++ [name])) (base.segments ++ names) = .error e ∧ t.node (p ++ names) = none) ∨
      t.node (p ++ names) ≠ none ∧
        directory t cwd (below base (names ++ [name])) (base.segments ++ names) = .ok (p ++ names) := by
  have htells := h.walk_tells (hway.of_prefix (List.prefix_append _ _))
  rw [directory, if_neg (by simpa [below] using h.solid_append hway)]
  rw [show start cwd (below base (names ++ [name])) = start cwd base from rfl]
  match hwalk : walk t maxLinks (start cwd base) (base.segments ++ names) with
  | .ok (.found q) =>
    rw [hwalk] at htells
    exact .inr ⟨htells.2, by rw [htells.1]⟩
  | .ok (.missing _ _) =>
    rw [hwalk] at htells
    exact .inl ⟨_, rfl, htells.2.2⟩
  | .error e =>
    rw [hwalk] at htells
    exact .inl ⟨_, rfl, htells⟩

/-- A name that leads down is followed as the last one. -/
theorem below_last (base : Path) (names : List Name) (hname : IsName name) :
    (below base (names ++ [name])).segments.getLast? = some name ∧
    (below base (names ++ [name])).segments.dropLast = base.segments ++ names ∧
      (below base (names ++ [name])).segments.rdropWhile (·.isEmpty) = base.segments ++ names ++ [name] := by
  have hsome : name ≠ [] := fun hnil => hname.down.1 (.inl hnil)
  rw [below, ← List.append_assoc]
  exact ⟨List.getLast?_concat, List.dropLast_concat, List.rdropWhile_concat_neg _ _ _ (by simpa using hsome)⟩

theorem Base.mkdir_below (h : Base t cwd base p) (hway : Way t p (names ++ [name]))
    (hmkdir : mkdir t cwd (below base (names ++ [name])) = .ok t') :
    t'.node = Function.update t.node (p ++ names ++ [name]) (some .dir) ∧ t.node (p ++ names ++ [name]) = none := by
  have hname := hway.each name (by simp)
  obtain ⟨-, -, hsegments⟩ := below_last base names hname
  rw [mkdir, hsegments, List.getLast?_concat, List.dropLast_concat] at hmkdir
  dsimp only at hmkdir
  rw [if_neg (by simpa [IsDot] using ⟨(not_or.mp hname.down.1).2, hname.down.2⟩)] at hmkdir
  rcases h.directory_below hway with ⟨e, hdirectory, -⟩ | ⟨-, hdirectory⟩
  · rw [hdirectory] at hmkdir
    cases hmkdir
  · rw [hdirectory] at hmkdir
    dsimp only at hmkdir
    split at hmkdir
    · split at hmkdir
      · rename_i hnone
        cases hmkdir
        exact ⟨rfl, hnone⟩
      · cases hmkdir
    · cases hmkdir

/-- A file is removed where no directory stands, and what is not found is not there. -/
theorem Base.removeFile_below (h : Base t cwd base p) (hway : Way t p (names ++ [name])) :
    (∀ t', removeFile t cwd (below base (names ++ [name])) = .ok t' →
        t'.node = Function.update t.node (p ++ names ++ [name]) none ∧ t.node (p ++ names ++ [name]) ≠ some .dir) ∧
      (removeFile t cwd (below base (names ++ [name])) = .error .notFound → t.node (p ++ names ++ [name]) = none) := by
  have hname := hway.each name (by simp)
  obtain ⟨hlast, hinit, -⟩ := below_last base names hname
  have hdots : ¬(name = [] ∨ name = ['.'] ∨ name = ['.', '.']) := by
    rw [← or_assoc]
    exact not_or.mpr ⟨hname.down.1, hname.down.2⟩
  rw [removeFile, hlast, hinit]
  dsimp only
  rw [if_neg hdots]
  rcases h.directory_below hway with ⟨e, hdirectory, hnone⟩ | ⟨-, hdirectory⟩
  · rw [hdirectory]
    refine ⟨fun _ h => (by cases h), fun _ => ?_⟩
    by_contra hsome
    have hdir := t.dir_of_append hsome (by simp)
    rw [hnone] at hdir
    cases hdir
  · rw [hdirectory]
    dsimp only
    split
    · split
      · exact ⟨fun _ h => (by cases h), fun h => by cases h⟩
      · rename_i hdir
        split
        · rename_i hnone
          exact ⟨fun _ h => (by cases h), fun _ => hnone⟩
        · refine ⟨fun t' h => ?_, fun h => by cases h⟩
          cases h
          exact ⟨rfl, hdir⟩
    · exact ⟨fun _ h => (by cases h), fun h => by cases h⟩

/-! ### Creating directories -/

/-- A path between its dots. -/
def Path.clean (path : Path) : Path := ⟨path.absolute, path.components⟩

theorem Path.components_nonempty {path : Path} (h : name ∈ path.components) : name ≠ [] := by
  have hfilter : ∀ {segments : List Name}, name ∈ segments.filter isPlain → name ≠ [] := by
    intro segments hmem
    have hplain := (List.mem_filter.mp hmem).2
    rw [isPlain, decide_eq_true_iff] at hplain
    exact hplain.1
  rw [components] at h
  split at h
  · rcases List.mem_cons.mp h with rfl | h
    · simp
    · exact hfilter h
  · exact hfilter h

theorem Base.clean (h : Base t cwd base p) : Base t cwd base.clean p := by
  obtain ⟨n, hn, hleads⟩ := h.leads
  have hfilter : Leads t n (start cwd base) (base.segments.filter Path.isPlain) p :=
    Leads.filter (show Leads t n (start cwd base) ([] ++ base.segments) p from hleads)
  have hsolid : (base.segments.filter Path.isPlain).any ('\x00' ∈ ·) = false := by
    rw [List.any_eq_false]
    exact fun name hname => List.any_eq_false.mp h.solid name (List.mem_of_mem_filter hname)
  rw [Path.clean, Path.components]
  split
  · refine ⟨?_, ⟨n, hn, ?_⟩, h.dir⟩
    · rw [List.any_cons, hsolid]
      rfl
    · exact .stay (hleads.dir h.dir) (.inr rfl) hfilter
  · exact ⟨hsolid, ⟨n, hn, hfilter⟩, h.dir⟩

/-- Nothing is created over a directory that is there. -/
theorem Base.createDirAll_eq (h : Base t cwd base p) :
    createDirAll cwd t base.absolute base.components.reverse = (t, .ok ()) := by
  have hclean := h.clean
  rcases List.eq_nil_or_concat base.components with hnil | ⟨init, last, hlast⟩
  · rw [hnil]
    rfl
  · rw [List.concat_eq_append] at hlast
    have hmem : last ∈ base.components := by simp [hlast]
    have hsome := Path.components_nonempty hmem
    have hempty : base.clean.isEmpty = false := by
      rw [Path.isEmpty, Bool.and_eq_false_iff, List.all_eq_false]
      exact .inr ⟨last, hmem, by simpa using hsome⟩
    have hcanonical := hclean.canonicalize_eq hempty
    have hmkdir : mkdir t cwd base.clean = .error .alreadyExists := by
      have hsegments : base.clean.segments.rdropWhile (·.isEmpty) = init ++ [last] := by
        rw [Path.clean, hlast, List.rdropWhile_concat_neg _ _ _ (by simpa using hsome)]
      rw [mkdir, hsegments, List.getLast?_concat, List.dropLast_concat]
      dsimp only
      by_cases hdots : last = ['.'] ∨ last = ['.', '.']
      · rw [if_pos hdots, hcanonical]
      · obtain ⟨n, hn, hleads⟩ := hclean.leads
        rw [show base.clean.segments = init ++ [last] from hlast] at hleads
        rw [not_or] at hdots
        obtain ⟨m, hm, d, hd, hdir, hthere⟩ := hleads.last ⟨not_or.mpr ⟨hsome, hdots.1⟩, hdots.2⟩
        obtain ⟨k, hk⟩ := Nat.exists_eq_add_of_le (hm.trans hn)
        have hwalk : walk t maxLinks (start cwd base.clean) init = .ok (.found d) := by
          rw [hk, ← List.append_nil init, hd.walk_append]
          rfl
        have hdirectory : directory t cwd base.clean init = .ok d := by
          rw [directory, if_neg (by simp [hclean.solid]), hwalk]
        rw [if_neg (not_or.mpr hdots), hdirectory]
        dsimp only
        rw [dif_pos hdir, dif_neg hthere]
    have hreverse : base.components.reverse = last :: init.reverse := by simp [hlast]
    have hpath : (⟨base.absolute, (last :: init.reverse).reverse⟩ : Path) = base.clean := by
      rw [← hreverse, List.reverse_reverse, Path.clean]
    rw [hreverse, createDirAll, hpath, hmkdir]
    dsimp only
    rw [isDir, hcanonical]
    simp [h.dir]

/-- Directories may be created on the way to names. -/
structure Grown (t t' : Tree) (p names : List Name) : Prop where
  same : ∀ q, t'.node q ≠ t.node q → t.node q = none ∧ t'.node q = some .dir
  way : ∀ q, t'.node q ≠ t.node q → ∃ names', names' <+: names ∧ q = p ++ names'

theorem Grown.refl : Grown t t p names := ⟨fun _ h => absurd rfl h, fun _ h => absurd rfl h⟩

theorem Grown.keeps (h : Grown t t' p names) : Keeps t t' where
  dir q hq := by
    by_contra hne
    rw [(h.same q (by rwa [hq])).1] at hq
    cases hq
  link q target := by
    by_cases heq : t'.node q = t.node q
    · rw [heq]
    · obtain ⟨hnone, hdir⟩ := h.same q heq
      simp [hnone, hdir]

theorem Grown.trans {t'' : Tree} {names' : List Name} (h : Grown t t' p names') (h' : Grown t' t'' p names)
    (hle : names' <+: names) : Grown t t'' p names := by
  have hall : ∀ q, t''.node q ≠ t.node q → (t.node q = none ∧ t''.node q = some .dir) ∧
      ∃ names', names' <+: names ∧ q = p ++ names' := by
    intro q hq
    by_cases heq : t'.node q = t.node q
    · have hne : t''.node q ≠ t'.node q := by rwa [heq]
      rw [← heq]
      exact ⟨h'.same q hne, h'.way q hne⟩
    · obtain ⟨hnone, hdir⟩ := h.same q heq
      obtain ⟨names'', hle', hq⟩ := h.way q heq
      exact ⟨⟨hnone, h'.keeps.dir q hdir⟩, names'', hle'.trans hle, hq⟩
  exact ⟨fun q hq => (hall q hq).1, fun q hq => (hall q hq).2⟩

theorem Base.grown_mkdir (h : Base t cwd base p) (hway : Way t p (names ++ [name]))
    (hmkdir : mkdir t cwd (below base (names ++ [name])) = .ok t') :
    Grown t t' p (names ++ [name]) ∧ t'.node (p ++ names ++ [name]) = some .dir := by
  obtain ⟨hnode, hnone⟩ := h.mkdir_below hway hmkdir
  have hat : ∀ q, t'.node q ≠ t.node q → q = p ++ names ++ [name] := by
    intro q hq
    by_contra hne
    rw [hnode, Function.update_of_ne hne] at hq
    exact hq rfl
  have hthere : t'.node (p ++ names ++ [name]) = some .dir := by rw [hnode, Function.update_self]
  refine ⟨⟨fun q hq => ?_, fun q hq => ?_⟩, hthere⟩
  · rw [hat q hq]
    exact ⟨hnone, hthere⟩
  · exact ⟨_, List.prefix_rfl, by rw [hat q hq, List.append_assoc]⟩

theorem Base.dir_of_isDir (h : Base t cwd base p) (hway : Way t p names) (hne : names ≠ [])
    (hdir : isDir t cwd (below base names) = true) : t.node (p ++ names) = some .dir := by
  rw [isDir] at hdir
  rcases h.canonicalize_below hway hne with ⟨-, heq⟩ | ⟨-, e, heq⟩
  · rw [heq] at hdir
    simpa using hdir
  · rw [heq] at hdir
    cases hdir

/-- Only directories are created, and only on the way to the names. -/
theorem Base.createDirAll_below (h : Base t cwd base p) (hway : Way t p names) :
    Grown t (createDirAll cwd t base.absolute (base.components ++ names).reverse).1 p names ∧
      ((createDirAll cwd t base.absolute (base.components ++ names).reverse).2 = .ok () →
        (createDirAll cwd t base.absolute (base.components ++ names).reverse).1.node (p ++ names) = some .dir) := by
  induction names using List.reverseRecOn with
  | nil =>
    rw [List.append_nil, List.append_nil, h.createDirAll_eq]
    exact ⟨.refl, fun _ => h.dir⟩
  | append_singleton names name ih =>
    have hpath : (⟨base.absolute, (name :: (base.components ++ names).reverse).reverse⟩ : Path) =
        below base.clean (names ++ [name]) := by
      simp [below, Path.clean]
    have hreverse : (base.components ++ (names ++ [name])).reverse = name :: (base.components ++ names).reverse := by simp
    -- What is created or found last, after the directories above have grown.
    have hlast : ∀ {t'}, Grown t t' p names → Grown t t' p (names ++ [name]) ∧ ∀ e,
        (if isDir t' cwd (below base.clean (names ++ [name])) then .ok () else .error e : Except Error Unit) = .ok () →
          t'.node (p ++ (names ++ [name])) = some .dir := by
      intro t' hgrown
      refine ⟨hgrown.trans .refl (List.prefix_append _ _), fun e he => ?_⟩
      by_cases hdir : isDir t' cwd (below base.clean (names ++ [name])) = true
      · exact (h.clean.kept hgrown.keeps).dir_of_isDir (hway.kept hgrown.keeps) (by simp) hdir
      · rw [if_neg hdir] at he
        cases he
    obtain ⟨hgrown, -⟩ := ih (hway.of_prefix (List.prefix_append _ _))
    rw [hreverse, createDirAll, hpath]
    match hmkdir : mkdir t cwd (below base.clean (names ++ [name])) with
    | .ok t' =>
      obtain ⟨hnew, hthere⟩ := h.clean.grown_mkdir hway hmkdir
      exact ⟨hnew, fun _ => by rwa [← List.append_assoc]⟩
    | .error .notFound =>
      dsimp only
      match hcreate : createDirAll cwd t base.absolute (base.components ++ names).reverse with
      | (t', .error e) =>
        rw [hcreate] at hgrown
        exact ⟨(hlast hgrown).1, fun h => by cases h⟩
      | (t', .ok ()) =>
        rw [hcreate] at hgrown
        dsimp only
        match hmkdir' : mkdir t' cwd (below base.clean (names ++ [name])) with
        | .ok t'' =>
          obtain ⟨hnew, hthere⟩ := (h.clean.kept hgrown.keeps).grown_mkdir (hway.kept hgrown.keeps) hmkdir'
          exact ⟨hgrown.trans hnew (List.prefix_append _ _), fun _ => by rwa [← List.append_assoc]⟩
        | .error e => exact ⟨(hlast hgrown).1, (hlast hgrown).2 e⟩
    | .error .notADirectory | .error .isADirectory | .error .alreadyExists | .error .loop | .error .invalidInput =>
      exact ⟨(hlast .refl).1, (hlast .refl).2 _⟩

end Below

end FileTree
