import Djangors.StaticFiles.Collect
import Djangors.Theorems.LocalStorage
import Djangors.Theorems.Uploads

/-! # What is collected is what is served

The files below the source directories are collected under paths of their names, and these are what serving finds under
the same paths, as long as no directory hides a file. -/

namespace FileTree

/-- A segment that a file can have for a name and a path between slashes. -/
structure IsPlainName (name : Name) : Prop extends IsName name where
  noSlash : '/' ∉ name
  noBackslash : '\\' ∉ name

/-- Below a directory stand only plain names, and no links. -/
structure Tidy (t : Tree) (p : List Name) : Prop where
  plain : ∀ q, t.node (p ++ q) ≠ none → ∀ name ∈ q, IsPlainName name
  noLink : ∀ q target, t.node (p ++ q) ≠ some (.link target)

/-- The directory that a path leads to. -/
def root? (t : Tree) (cwd : List Name) (dir : Path) : Option (List Name) :=
  match canonicalize t cwd dir with
  | .ok p => if t.node p = some .dir then some p else none
  | .error _ => none

/-- What stands below a path. -/
def standing (t : Tree) (cwd : List Name) (dir : Path) (rel : List Name) : Option Node :=
  (root? t cwd dir).bind fun p => t.node (p ++ rel)

section Roots
variable {t : Tree} {cwd p rel : List Name} {dir : Path}

theorem root?_eq_some : root? t cwd dir = some p ↔ canonicalize t cwd dir = .ok p ∧ t.node p = some .dir := by
  rw [root?]
  cases hcanonical : canonicalize t cwd dir with
  | error e => simp
  | ok q =>
    dsimp only
    split
    · rename_i hdir
      simp only [Option.some.injEq, Except.ok.injEq]
      exact ⟨fun h => h ▸ ⟨rfl, hdir⟩, fun h => h.1⟩
    · rename_i hdir
      refine iff_of_false nofun ?_
      rintro ⟨hq, hp⟩
      cases hq
      exact hdir hp

theorem isDir_iff : isDir t cwd dir = true ↔ ∃ p, root? t cwd dir = some p := by
  rw [isDir]
  cases hcanonical : canonicalize t cwd dir with
  | error e => simp [root?, hcanonical]
  | ok q => by_cases hdir : t.node q = some .dir <;> simp [root?, hcanonical, hdir]

theorem base_of_root? (h : root? t cwd dir = some p) : Base t cwd dir p := by
  obtain ⟨hcanonical, hdir⟩ := root?_eq_some.mp h
  exact base_of_canonicalize hcanonical hdir

theorem nonempty_of_canonicalize (h : canonicalize t cwd dir = .ok p) : dir.isEmpty = false := by
  by_contra hempty
  rw [canonicalize, lookup, if_pos (eq_true_of_ne_false hempty)] at h
  cases h

theorem below_nil (dir : Path) : below dir [] = dir := by rw [below, List.append_nil]

theorem Tidy.way (h : Tidy t p) (hnames : ∀ name ∈ rel, IsName name) : Way t p rel :=
  ⟨hnames, fun q _ target => h.noLink q target⟩

/-- Names below a directory lead to what stands there. -/
theorem canonicalize_rel (hroot : root? t cwd dir = some p) (htidy : Tidy t p) (hnames : ∀ name ∈ rel, IsName name) :
    (t.node (p ++ rel) ≠ none ∧ canonicalize t cwd (below dir rel) = .ok (p ++ rel)) ∨
      (t.node (p ++ rel) = none ∧ ∃ e, canonicalize t cwd (below dir rel) = .error e) := by
  by_cases hne : rel = []
  · subst hne
    obtain ⟨hcanonical, hdir⟩ := root?_eq_some.mp hroot
    rw [below_nil, List.append_nil]
    exact .inl ⟨by simp [hdir], hcanonical⟩
  · exact (base_of_root? hroot).canonicalize_below (htidy.way hnames) hne

theorem isDir_below (hroot : root? t cwd dir = some p) (htidy : Tidy t p) (hnames : ∀ name ∈ rel, IsName name) :
    isDir t cwd (below dir rel) = true ↔ t.node (p ++ rel) = some .dir := by
  rw [isDir]
  rcases canonicalize_rel hroot htidy hnames with ⟨-, hok⟩ | ⟨hnone, e, herror⟩
  · rw [hok]
    exact decide_eq_true_iff
  · rw [herror, hnone]
    exact iff_of_false Bool.false_ne_true fun h => by cases h

theorem isFile_below (hroot : root? t cwd dir = some p) (htidy : Tidy t p) (hnames : ∀ name ∈ rel, IsName name) :
    isFile t cwd (below dir rel) = true ↔ ∃ content, t.node (p ++ rel) = some (.file content) := by
  rw [isFile]
  rcases canonicalize_rel hroot htidy hnames with ⟨-, hok⟩ | ⟨hnone, e, herror⟩
  · rw [hok]
    cases hnode : t.node (p ++ rel) with
    | none => simp [hnode]
    | some node => cases node <;> simp [hnode]
  · rw [herror, hnone]
    simp

theorem readFile_below (hroot : root? t cwd dir = some p) (htidy : Tidy t p) (hnames : ∀ name ∈ rel, IsName name)
    {content : List UInt8} (hfile : t.node (p ++ rel) = some (.file content)) :
    readFile t cwd (below dir rel) = .ok content := by
  rw [readFile]
  rcases canonicalize_rel hroot htidy hnames with ⟨-, hok⟩ | ⟨hnone, -⟩
  · rw [hok]
    dsimp only
    rw [readAt, hfile]
  · rw [hnone] at hfile
    cases hfile

/-- Below what is no directory nothing is found. -/
theorem canonicalize_below_none (hroot : root? t cwd dir = none) {d : List Name} (hdir : canonicalize t cwd dir = .ok d)
    (hne : rel ≠ []) : ∃ e, canonicalize t cwd (below dir rel) = .error e := by
  have hnot : t.node d ≠ some .dir := fun h => by
    rw [root?_eq_some.mpr ⟨hdir, h⟩] at hroot
    cases hroot
  have hlookup : lookup t cwd dir = .ok (.found d) := by
    rw [canonicalize] at hdir
    split at hdir
    · cases hdir
      assumption
    · cases hdir
    · cases hdir
  rw [lookup, if_neg (by simp [nonempty_of_canonicalize hdir])] at hlookup
  split at hlookup
  · cases hlookup
  · obtain ⟨n, hn, hleads⟩ := leads_of_walk hlookup
    obtain ⟨k, hk⟩ := Nat.exists_eq_add_of_le hn
    have hwalk : ∃ e, walk t maxLinks (start cwd dir) (dir.segments ++ rel) = .error e := by
      obtain ⟨name, rest, rfl⟩ := List.exists_cons_of_ne_nil hne
      rw [hk, hleads.walk_append, walk, descend, if_pos hnot]
      exact ⟨_, rfl⟩
    obtain ⟨e, he⟩ := hwalk
    rw [canonicalize, lookup]
    split
    · rename_i hfound
      split at hfound
      · cases hfound
      · split at hfound
        · cases hfound
        · exact absurd (he.symm.trans hfound) fun h => by cases h
    · exact ⟨_, rfl⟩
    · exact ⟨_, rfl⟩

end Roots
end FileTree

namespace Djangors.StaticFiles
open FileTree

/-! ### Walking -/

section Walking
variable {t : Tree} {cwd p : List Name} {listing : Listing t} {dir : Path} {depth : Nat} {current rel : List Name}
  {files : List (List Name)}

/-- A step of a walk: what is found at an entry of a directory. -/
def entryFiles (cwd : List Name) (listing : Listing t) (dir : Path) (depth : Nat) (current : List Name) (name : Name) :
    Except Error (List (List Name)) :=
  if isDir t cwd (below dir (current ++ [name])) then walkDir cwd listing dir depth (current ++ [name])
  else if isFile t cwd (below dir (current ++ [name])) then .ok [current ++ [name]]
  else .ok []

theorem walkDir_succ (hroot : root? t cwd dir = some p) (htidy : Tidy t p) (hnames : ∀ name ∈ current, IsName name)
    (hdir : t.node (p ++ current) = some .dir) : walkDir cwd listing dir (depth + 1) current =
      match listing.entries (p ++ current) with
      | .error e => .error e
      | .ok entries => (entries.mapM (entryFiles cwd listing dir depth current)).map List.flatten := by
  have hcanonical : canonicalize t cwd (below dir current) = .ok (p ++ current) := by
    rcases canonicalize_rel hroot htidy hnames with ⟨-, hok⟩ | ⟨hnone, -⟩
    · exact hok
    · rw [hdir] at hnone
      cases hnone
  rw [walkDir, if_pos ((isDir_below hroot htidy hnames).mpr hdir), readDir, hcanonical]
  rfl

theorem names_of_entry (htidy : Tidy t p) {name : Name} (h : t.node (p ++ (current ++ [name])) ≠ none) :
    ∀ n ∈ current ++ [name], IsName n := fun n hn => (htidy.plain _ h n hn).toIsName

/-- A walk finds the files below a directory. -/
theorem mem_walkDir (hroot : root? t cwd dir = some p) (htidy : Tidy t p) (hnames : ∀ name ∈ current, IsName name)
    (hdir : t.node (p ++ current) = some .dir) (h : walkDir cwd listing dir depth current = .ok files) :
    rel ∈ files ↔ ∃ more content, more ≠ [] ∧ rel = current ++ more ∧ t.node (p ++ rel) = some (.file content) := by
  induction depth generalizing current files with
  | zero => cases h
  | succ depth ih =>
    rw [walkDir_succ hroot htidy hnames hdir] at h
    split at h
    · cases h
    · rename_i entries hentries
      obtain ⟨found, hfound, rfl⟩ := Except.map_eq_ok h
      have hentry : ∀ name ∈ entries, t.node (p ++ (current ++ [name])) ≠ none := fun name hname => by
        rw [← List.append_assoc]
        exact (listing.mem _ _ hentries name).mp hname
      rw [List.mem_flatten]
      constructor
      · rintro ⟨part, hpart, hrel⟩
        obtain ⟨name, hname, hpart⟩ := Except.exists_of_mem_mapM hfound hpart
        have hbelow := names_of_entry htidy (hentry name hname)
        rw [entryFiles] at hpart
        split at hpart
        · rename_i hisDir
          rw [isDir_below hroot htidy hbelow] at hisDir
          obtain ⟨more, content, -, rfl, hfile⟩ := (ih hbelow hisDir hpart).mp hrel
          rw [List.append_assoc] at hfile ⊢
          exact ⟨_, content, by simp, rfl, hfile⟩
        · split at hpart
          · rename_i hisFile
            cases hpart
            rw [List.mem_singleton] at hrel
            subst hrel
            obtain ⟨content, hfile⟩ := (isFile_below hroot htidy hbelow).mp hisFile
            exact ⟨_, content, by simp, rfl, hfile⟩
          · cases hpart
            cases hrel
      · rintro ⟨more, content, hmore, rfl, hfile⟩
        obtain ⟨name, rest, rfl⟩ := List.exists_cons_of_ne_nil hmore
        have hsplit : current ++ name :: rest = current ++ [name] ++ rest := by simp
        have hsome : t.node (p ++ (current ++ [name])) ≠ none := by
          by_cases hrest : rest = []
          · subst hrest
            simp [hfile]
          · rw [t.dir_of_append (q := rest) (by rw [List.append_assoc, ← hsplit, hfile]; nofun) hrest]
            nofun
        have hname : name ∈ entries := (listing.mem _ _ hentries name).mpr (by rwa [List.append_assoc])
        have hbelow := names_of_entry htidy hsome
        obtain ⟨part, hpart, hok⟩ := Except.exists_mapM_of_mem hfound hname
        refine ⟨part, hpart, ?_⟩
        rw [entryFiles] at hok
        split at hok
        · rename_i hisDir
          rw [isDir_below hroot htidy hbelow] at hisDir
          refine (ih hbelow hisDir hok).mpr ⟨rest, content, ?_, hsplit, hfile⟩
          rintro rfl
          rw [hisDir] at hfile
          cases hfile
        · rename_i hnot
          rw [isDir_below hroot htidy hbelow] at hnot
          have hrest : rest = [] := by
            by_contra hrest
            exact hnot (t.dir_of_append (q := rest) (by rw [List.append_assoc, ← hsplit, hfile]; nofun) hrest)
          subst hrest
          rw [if_pos ((isFile_below hroot htidy hbelow).mpr ⟨content, hfile⟩)] at hok
          cases hok
          exact List.mem_singleton_self _

/-- A walk that is deep enough succeeds where the directories can be listed. -/
theorem exists_walkDir (hroot : root? t cwd dir = some p) (htidy : Tidy t p) (hnames : ∀ name ∈ current, IsName name)
    (hdir : t.node (p ++ current) = some .dir) (hlist : ∀ q, t.node q = some .dir → ∃ names, listing.entries q = .ok names)
    (hdepth : ∀ q, t.node q ≠ none → q.length < (p ++ current).length + depth) :
    ∃ files, walkDir cwd listing dir depth current = .ok files := by
  induction depth generalizing current with
  | zero => exact absurd (hdepth _ (by rw [hdir]; nofun)) (by omega)
  | succ depth ih =>
    obtain ⟨entries, hentries⟩ := hlist _ hdir
    rw [walkDir_succ hroot htidy hnames hdir, hentries]
    have hall : ∀ name ∈ entries, ∃ part, entryFiles cwd listing dir depth current name = .ok part := by
      intro name hname
      have hsome : t.node (p ++ (current ++ [name])) ≠ none := by
        rw [← List.append_assoc]
        exact (listing.mem _ _ hentries name).mp hname
      have hbelow := names_of_entry htidy hsome
      rw [entryFiles]
      split
      · rename_i hisDir
        rw [isDir_below hroot htidy hbelow] at hisDir
        refine ih hbelow hisDir fun q hq => ?_
        have hlt := hdepth q hq
        simp only [List.length_append, List.length_singleton] at hlt ⊢
        omega
      · split <;> exact ⟨_, rfl⟩
    obtain ⟨found, hfound⟩ := Except.mapM_isOk.mpr hall
    refine ⟨found.flatten, ?_⟩
    dsimp only
    rw [hfound]
    rfl

end Walking

/-! ### Collecting -/

section Collecting
variable {t : Tree} {cwd : List Name} {listing : Listing t} {depth : Nat} {dir : Path} {dirs before : List Path}
  {rel rel' : List Name} {files : List (List Name)} {collected collected' : List (List Char × Path)}

/-- A file stands below a source directory. -/
def holds (t : Tree) (cwd : List Name) (rel : List Name) (dir : Path) : Bool :=
  match standing t cwd dir rel with
  | some (.file _) => true
  | _ => false

theorem holds_iff : holds t cwd rel dir = true ↔ ∃ content, standing t cwd dir rel = some (.file content) := by
  rw [holds]
  split
  · rename_i content h
    exact iff_of_true rfl ⟨content, h⟩
  · rename_i h
    exact iff_of_false Bool.false_ne_true fun ⟨content, hcontent⟩ => h content hcontent

/-- The source directories have plain names, and no links. -/
def TidySources (t : Tree) (cwd : List Name) (dirs : List Path) : Prop :=
  ∀ dir ∈ dirs, ∀ p, root? t cwd dir = some p → Tidy t p

theorem plain_of_standing (htidy : ∀ p, root? t cwd dir = some p → Tidy t p) (h : standing t cwd dir rel ≠ none) :
    ∀ name ∈ rel, IsPlainName name := by
  rw [standing] at h
  cases hroot : root? t cwd dir with
  | none => simp [hroot] at h
  | some p =>
    rw [hroot] at h
    exact (htidy p hroot).plain rel h

theorem plain_of_holds (htidy : ∀ p, root? t cwd dir = some p → Tidy t p) (h : holds t cwd rel dir = true) :
    ∀ name ∈ rel, IsPlainName name := by
  obtain ⟨content, hfile⟩ := holds_iff.mp h
  exact plain_of_standing htidy (by rw [hfile]; nofun)

theorem not_holds_nil (dir : Path) : holds t cwd [] dir = false := by
  rw [Bool.eq_false_iff]
  intro h
  obtain ⟨content, hfile⟩ := holds_iff.mp h
  obtain ⟨p, hroot, hnode⟩ := Option.bind_eq_some_iff.mp hfile
  rw [List.append_nil, (root?_eq_some.mp hroot).2] at hnode
  cases hnode

theorem mem_filesOf (htidy : ∀ p, root? t cwd dir = some p → Tidy t p) (h : filesOf cwd listing depth dir = .ok files) :
    rel ∈ files ↔ holds t cwd rel dir = true := by
  rw [filesOf] at h
  split at h
  · rename_i hdir
    rw [Bool.and_eq_true, isDir_iff] at hdir
    obtain ⟨-, p, hroot⟩ := hdir
    have hnode : t.node (p ++ []) = some .dir := by rw [List.append_nil, (root?_eq_some.mp hroot).2]
    rw [mem_walkDir hroot (htidy p hroot) (by simp) hnode h, holds_iff, standing, hroot, Option.bind_some]
    constructor
    · rintro ⟨more, content, -, -, hfile⟩
      exact ⟨content, hfile⟩
    · rintro ⟨content, hfile⟩
      refine ⟨rel, content, ?_, rfl, hfile⟩
      rintro rfl
      rw [hnode] at hfile
      cases hfile
  · rename_i hdir
    cases h
    refine iff_of_false List.not_mem_nil fun hholds => hdir ?_
    obtain ⟨content, hfile⟩ := holds_iff.mp hholds
    obtain ⟨p, hroot, -⟩ := Option.bind_eq_some_iff.mp hfile
    rw [Bool.and_eq_true, pathExists, (root?_eq_some.mp hroot).1]
    exact ⟨rfl, isDir_iff.mpr ⟨p, hroot⟩⟩

theorem relStr_eq (h : ∀ name ∈ rel, IsPlainName name) : relStr rel = ['/'].intercalate rel := by
  have hnone : '\\' ∉ ['/'].intercalate rel := by
    intro hmem
    induction rel with
    | nil => simp at hmem
    | cons name rel ih =>
      cases rel with
      | nil =>
        rw [List.intercalate_singleton] at hmem
        exact (h name (by simp)).noBackslash hmem
      | cons next rel =>
        rw [List.intercalate_cons_cons] at hmem
        simp only [List.mem_append, List.mem_singleton] at hmem
        rcases hmem with (hmem | hmem) | hmem
        · exact (h name (by simp)).noBackslash hmem
        · exact absurd hmem (by decide)
        · exact ih (fun n hn => h n (by simp [hn])) hmem
  rw [relStr, forwardSlashes]
  refine (List.map_congr_left fun c hc => if_neg ?_).trans (List.map_id _)
  rintro rfl
  exact hnone hc

theorem names_relStr (h : ∀ name ∈ rel, IsPlainName name) (hne : rel ≠ []) : names (relStr rel) = rel := by
  rw [relStr_eq h, names, List.splitOn_intercalate '/' (fun name hname => (h name hname).noSlash) hne]

theorem relStr_inj (h : ∀ name ∈ rel, IsPlainName name) (h' : ∀ name ∈ rel', IsPlainName name) (hne : rel ≠ [])
    (hne' : rel' ≠ []) (heq : relStr rel = relStr rel') : rel = rel' := by
  rw [← names_relStr h hne, heq, names_relStr h' hne']

/-- What has been collected from directories: each file under its path, from the first directory that holds it. -/
structure Collected (t : Tree) (cwd : List Name) (dirs : List Path) (collected : List (List Char × Path)) : Prop where
  nodup : (collected.map (·.1)).Nodup
  mem : ∀ key path, (key, path) ∈ collected ↔
    ∃ rel dir, key = relStr rel ∧ path = below dir rel ∧ dirs.find? (holds t cwd rel) = some dir

theorem Collected.mem_keys (h : Collected t cwd dirs collected) {key : List Char} :
    key ∈ collected.map (·.1) ↔ ∃ rel, key = relStr rel ∧ ∃ dir, dirs.find? (holds t cwd rel) = some dir := by
  rw [List.mem_map]
  constructor
  · rintro ⟨⟨key', path⟩, hmem, rfl⟩
    obtain ⟨rel, dir, hkey, -, hdir⟩ := (h.mem _ _).mp hmem
    exact ⟨rel, hkey, dir, hdir⟩
  · rintro ⟨rel, rfl, dir, hdir⟩
    exact ⟨_, (h.mem _ _).mpr ⟨rel, dir, rfl, rfl, hdir⟩, rfl⟩

theorem nodup_addFiles (h : (collected.map (·.1)).Nodup) : ((addFiles dir files collected).map (·.1)).Nodup := by
  induction files generalizing collected with
  | nil => exact h
  | cons rel files ih =>
    rw [addFiles, List.foldl_cons]
    split
    · exact ih h
    · rename_i hnew
      refine ih ?_
      rw [List.map_append, List.map_singleton, List.nodup_append]
      refine ⟨h, List.nodup_singleton _, fun a ha b hb => ?_⟩
      have hlast : b = relStr rel := List.mem_singleton.mp hb
      rintro rfl
      exact hnew (hlast ▸ ha)

theorem mem_addFiles (hinj : ∀ a ∈ files, ∀ b ∈ files, relStr a = relStr b → a = b) {key : List Char} {path : Path} :
    (key, path) ∈ addFiles dir files collected ↔ (key, path) ∈ collected ∨
      key ∉ collected.map (·.1) ∧ ∃ rel ∈ files, key = relStr rel ∧ path = below dir rel := by
  induction files generalizing collected with
  | nil => simp [addFiles]
  | cons rel files ih =>
    have hfiles : ∀ a ∈ files, ∀ b ∈ files, relStr a = relStr b → a = b := fun a ha b hb => hinj a (by simp [ha]) b (by simp [hb])
    rw [addFiles, List.foldl_cons]
    split
    · rename_i htaken
      rw [← addFiles, ih hfiles]
      refine or_congr_right (and_congr_right fun hnew => ?_)
      simp only [List.mem_cons, exists_eq_or_imp]
      exact ⟨.inr, fun h => h.resolve_left fun h => hnew (h.1 ▸ htaken)⟩
    · rename_i hnew
      rw [← addFiles, ih hfiles]
      simp only [List.map_append, List.map_singleton, List.mem_append, List.mem_cons, List.not_mem_nil, or_false, Prod.mk.injEq,
        not_or, exists_eq_or_imp]
      constructor
      · rintro ((h | ⟨rfl, rfl⟩) | ⟨⟨hkey, -⟩, h⟩)
        · exact .inl h
        · exact .inr ⟨hnew, .inl ⟨rfl, rfl⟩⟩
        · exact .inr ⟨hkey, .inr h⟩
      · rintro (h | ⟨hkey, ⟨rfl, rfl⟩ | ⟨rel', hrel', rfl, rfl⟩⟩)
        · exact .inl (.inl h)
        · exact .inl (.inr ⟨rfl, rfl⟩)
        · by_cases hsame : relStr rel' = relStr rel
          · have heq := hinj rel' (by simp [hrel']) rel (by simp) hsame
            exact .inl (.inr ⟨hsame, by rw [heq]⟩)
          · exact .inr ⟨⟨hkey, hsame⟩, rel', hrel', rfl, rfl⟩

theorem Collected.add (h : Collected t cwd before collected) (htidy : TidySources t cwd (before ++ [dir]))
    (hfiles : ∀ rel, rel ∈ files ↔ holds t cwd rel dir = true) :
    Collected t cwd (before ++ [dir]) (addFiles dir files collected) := by
  have hdir : ∀ p, root? t cwd dir = some p → Tidy t p := htidy dir (by simp)
  have hplain : ∀ rel, holds t cwd rel dir = true → (∀ name ∈ rel, IsPlainName name) ∧ rel ≠ [] := fun rel hrel =>
    ⟨plain_of_holds hdir hrel, fun hnil => by
      rw [hnil, not_holds_nil] at hrel
      cases hrel⟩
  have hplain' : ∀ rel d, before.find? (holds t cwd rel) = some d → (∀ name ∈ rel, IsPlainName name) ∧ rel ≠ [] := by
    intro rel d hfind
    have hheld := List.find?_some hfind
    refine ⟨plain_of_holds (htidy d (by simp [List.mem_of_find?_eq_some hfind])) hheld, ?_⟩
    rintro rfl
    rw [not_holds_nil] at hheld
    cases hheld
  refine ⟨nodup_addFiles h.nodup, fun key path => ?_⟩
  rw [mem_addFiles fun a ha b hb heq => ?_, h.mem, h.mem_keys]
  · constructor
    · rintro (⟨rel, d, rfl, rfl, hfind⟩ | ⟨hnew, rel, hrel, rfl, rfl⟩)
      · exact ⟨rel, d, rfl, rfl, by rw [List.find?_append, hfind, Option.some_or]⟩
      · have hnone : before.find? (holds t cwd rel) = none := by
          by_contra hsome
          obtain ⟨d, hd⟩ := Option.ne_none_iff_exists'.mp hsome
          exact hnew ⟨rel, rfl, d, hd⟩
        refine ⟨rel, dir, rfl, rfl, ?_⟩
        rw [List.find?_append, hnone, Option.none_or, List.find?_singleton, if_pos ((hfiles rel).mp hrel)]
    · rintro ⟨rel, d, rfl, rfl, hfind⟩
      rw [List.find?_append] at hfind
      cases hbefore : before.find? (holds t cwd rel) with
      | some d' =>
        rw [hbefore, Option.some_or, Option.some_inj] at hfind
        exact .inl ⟨rel, d, rfl, rfl, by rw [hbefore, hfind]⟩
      | none =>
        rw [hbefore, Option.none_or, List.find?_singleton] at hfind
        split at hfind
        · rename_i hheld
          cases hfind
          refine .inr ⟨?_, rel, (hfiles rel).mpr hheld, rfl, rfl⟩
          rintro ⟨rel', heq, d', hfind'⟩
          obtain ⟨hnames, hne⟩ := hplain rel hheld
          obtain ⟨hnames', hne'⟩ := hplain' rel' d' hfind'
          rw [relStr_inj hnames hnames' hne hne' heq, hfind'] at hbefore
          cases hbefore
        · cases hfind
  · obtain ⟨hnames, hne⟩ := hplain a ((hfiles a).mp ha)
    obtain ⟨hnames', hne'⟩ := hplain b ((hfiles b).mp hb)
    exact relStr_inj hnames hnames' hne hne' heq

theorem collected_collectFiles (htidy : TidySources t cwd dirs) (h : collectFiles cwd listing depth dirs = .ok collected) :
    Collected t cwd dirs collected := by
  have run : ∀ (dirs before : List Path) (collected collected' : List (List Char × Path)),
      TidySources t cwd (before ++ dirs) → Collected t cwd before collected →
      dirs.foldlM (fun collected dir => do
        let files ← filesOf cwd listing depth dir
        pure (addFiles dir files collected)) collected = .ok collected' → Collected t cwd (before ++ dirs) collected' := by
    intro dirs
    induction dirs with
    | nil =>
      intro before collected collected' _ hstart hrun
      cases hrun
      rwa [List.append_nil]
    | cons dir dirs ih =>
      intro before collected collected' htidy hstart hrun
      rw [List.foldlM_cons] at hrun
      obtain ⟨next, hnext, hrest⟩ := Except.bind_eq_ok.mp hrun
      obtain ⟨files, hfiles, hadd⟩ := Except.bind_eq_ok.mp hnext
      cases hadd
      have hsplit : before ++ dir :: dirs = before ++ [dir] ++ dirs := by simp
      rw [hsplit] at htidy ⊢
      refine ih _ _ _ htidy (hstart.add (fun d hd => htidy d (List.mem_append_left _ hd)) fun rel => ?_) hrest
      exact mem_filesOf (htidy dir (by simp)) hfiles
  have hstart : Collected t cwd [] [] := ⟨List.nodup_nil, by simp⟩
  exact run dirs [] [] collected htidy hstart h

end Collecting

/-! ### Serving -/

/-- A path of names between single slashes. -/
def Normal (path : List Char) : Prop := ∀ name ∈ names path, IsName name

section Serving
variable {t : Tree} {cwd : List Name} {dir : Path} {dirs : List Path} {path : List Char} {message : Error → List Char}

theorem Normal.relative (h : Normal path) : (Path.ofText path).absolute = false := by
  refine decide_eq_false fun hslash => ?_
  obtain ⟨rest, rfl⟩ := List.head?_eq_some_iff.mp hslash
  have hsplit : names ('/' :: rest) = [[]] ++ names rest := List.splitOn_append_cons_self [] rest
  exact (h [] (by simp [hsplit])).down.1 (.inl rfl)

theorem Normal.ne_nil (h : Normal path) : path ≠ [] := by
  rintro rfl
  exact (h [] (by simp [names])).down.1 (.inl rfl)

theorem resolvePath_normal (htidy : ∀ p, root? t cwd dir = some p → Tidy t p) (h : Normal path) :
    (⟨dir⟩ : LocalDiskStorage).resolvePath cwd t path =
      (root? t cwd dir).bind fun p => if t.node (p ++ names path) = none then none else some (p ++ names path) := by
  cases hroot : root? t cwd dir with
  | some p =>
    have hrooted : (⟨dir⟩ : LocalDiskStorage).Rooted cwd t p := ⟨(root?_eq_some.mp hroot).1, (root?_eq_some.mp hroot).2⟩
    exact hrooted.resolvePath_eq ((htidy p hroot).way h)
  | none =>
    rw [LocalDiskStorage.resolvePath, if_neg h.ne_nil, Option.bind_none]
    split
    · rfl
    · rename_i hexists
      cases hdir : canonicalize t cwd dir with
      | error e =>
        dsimp only
        split <;> rfl
      | ok d =>
        -- Below a file nothing exists.
        exfalso
        obtain ⟨e, he⟩ := canonicalize_below_none hroot hdir (names_ne_nil path)
        have htarget : (⟨dir⟩ : LocalDiskStorage).target path = below dir (names path) := by
          simp only [LocalDiskStorage.target, FileTree.Path.join, h.relative, nonempty_of_canonicalize hdir,
            Bool.false_eq_true, if_false]
          rfl
        rw [htarget, pathExists, he] at hexists
        exact hexists rfl

theorem exists_normal (htidy : ∀ p, root? t cwd dir = some p → Tidy t p) (h : Normal path) :
    (⟨dir⟩ : LocalDiskStorage).exists_ cwd t path = (standing t cwd dir (names path)).isSome := by
  rw [LocalDiskStorage.exists_, resolvePath_normal htidy h, standing]
  cases root? t cwd dir with
  | none => rfl
  | some p => cases hnode : t.node (p ++ names path) <;> simp [hnode]

theorem openFile_normal (htidy : ∀ p, root? t cwd dir = some p → Tidy t p) (h : Normal path) :
    (⟨dir⟩ : LocalDiskStorage).openFile cwd t path = match standing t cwd dir (names path) with
      | some (.file content) => .ok content
      | some .dir => .error .isADirectory
      | some (.link _) => .error .loop
      | none => .error .notFound := by
  rw [LocalDiskStorage.openFile, resolvePath_normal htidy h, standing]
  cases root? t cwd dir with
  | none => rfl
  | some p =>
    cases hnode : t.node (p ++ names path) with
    | none => simp [hnode]
    | some node => cases node <;> simp [hnode, readAt]

/-- No directory hides a file of a later source. -/
def Unhidden (t : Tree) (cwd : List Name) (dirs : List Path) : Prop :=
  dirs.Pairwise fun d dir => ∀ rel content, standing t cwd dir rel = some (.file content) → standing t cwd d rel ≠ some .dir

/-- What is found under a path between single slashes is the file of the first source that holds it. -/
theorem find_normal (htidy : TidySources t cwd dirs) (hunhidden : Unhidden t cwd dirs) (h : Normal path)
    {content : List UInt8} : find message cwd t path (dirs.map LocalDiskStorage.mk) = .ok (some content) ↔
      ∃ dir, dirs.find? (holds t cwd (names path)) = some dir ∧
        standing t cwd dir (names path) = some (.file content) := by
  induction dirs with
  | nil => simp [find]
  | cons dir dirs ih =>
    have hdir := htidy dir (by simp)
    obtain ⟨hfirst, hrest⟩ := List.pairwise_cons.mp hunhidden
    have hmore := ih (fun d hd => htidy d (by simp [hd])) hrest
    rw [List.map_cons, find, exists_normal hdir h, openFile_normal hdir h]
    cases hstanding : standing t cwd dir (names path) with
    | none =>
      have hnot : holds t cwd (names path) dir = false := by rw [holds, hstanding]
      rw [if_neg (by simp), hmore, List.find?_cons_of_neg (by simp [hnot])]
    | some node =>
      rw [if_pos (Option.isSome_some (a := node))]
      cases node with
      | file content' =>
        have hheld : holds t cwd (names path) dir = true := by rw [holds, hstanding]
        rw [List.find?_cons_of_pos hheld]
        simp [hstanding]
      | dir =>
        have hnot : holds t cwd (names path) dir = false := by rw [holds, hstanding]
        refine iff_of_false (fun h => by cases h) ?_
        rintro ⟨d, hfind, hfile⟩
        rw [List.find?_cons_of_neg (by simp [hnot])] at hfind
        exact hfirst d (List.mem_of_find?_eq_some hfind) _ _ hfile hstanding
      | link target =>
        obtain ⟨p, hroot, hnode⟩ := Option.bind_eq_some_iff.mp hstanding
        exact absurd hnode ((hdir p hroot).noLink _ _)

end Serving

/-! ### Stored keys -/

section Keys
variable {rel rel' : List Name} {name name' hash hash' : List Char}

/-- The name of a file with its hash before the extension. -/
def hashedName (name hash : List Char) : List Char :=
  match splitAtDot name with
  | (stem, some ext) => stem ++ '.' :: hash ++ '.' :: ext
  | (_, none) => name ++ '.' :: hash

/-- Eight digits. -/
structure IsHash (hash : List Char) : Prop where
  length : hash.length = 8
  digits : ∀ c ∈ hash, c.isAlphanum = true

theorem isHash_hashPrefix (content : List UInt8) : IsHash (hashPrefix content) where
  length := by
    rw [hashPrefix, List.length_take, length_lowerHex, length_sha256]
    rfl
  digits c hc := by
    have hshort : c ∈ shortHash content := by
      rw [hashPrefix] at hc
      exact List.take_subset_take_left _ (by decide) hc
    exact (mem_shortHash content hshort).1

theorem IsHash.notMem (h : IsHash hash) {c : Char} (hc : c.isAlphanum = false) : c ∉ hash := fun hmem => by
  rw [h.digits c hmem] at hc
  cases hc

theorem hashedName_parts (name hash : List Char) : (hashedName name hash = name ++ '.' :: hash ∧ '.' ∉ name.tail) ∨
    ∃ stem ext, name = stem ++ '.' :: ext ∧ '.' ∉ ext ∧ stem ≠ [] ∧ hashedName name hash = stem ++ '.' :: hash ++ '.' :: ext := by
  rw [hashedName]
  rcases hsplit : splitAtDot name with ⟨stem, _ | ext⟩
  · exact .inl ⟨rfl, (splitAtDot_none hsplit).2⟩
  · obtain ⟨hname, hext⟩ := splitAtDot_some hsplit
    refine .inr ⟨stem, ext, hname, hext, ?_, rfl⟩
    rintro rfl
    rw [splitAtDot] at hsplit
    split at hsplit
    · cases hsplit
    · rename_i hne
      exact hne (congrArg Prod.fst hsplit)

theorem mem_hashedName {c : Char} (h : c ∈ hashedName name hash) : c ∈ name ∨ c = '.' ∨ c ∈ hash := by
  rcases hashedName_parts name hash with ⟨heq, -⟩ | ⟨stem, ext, rfl, -, -, heq⟩ <;> rw [heq] at h
  · simp only [List.mem_append, List.mem_cons] at h
    exact h
  · simp only [List.mem_append, List.mem_cons] at h ⊢
    rcases h with (h | h | h) | h | h
    · exact .inl (.inl h)
    · exact .inr (.inl h)
    · exact .inr (.inr h)
    · exact .inr (.inl h)
    · exact .inl (.inr (.inr h))

theorem length_hashedName (h : IsHash hash) : 9 ≤ (hashedName name hash).length := by
  rcases hashedName_parts name hash with ⟨heq, -⟩ | ⟨stem, ext, -, -, -, heq⟩ <;> rw [heq] <;>
    simp only [List.length_append, List.length_cons, h.length] <;> omega

theorem plain_hashedName (hname : IsPlainName name) (h : IsHash hash) : IsPlainName (hashedName name hash) := by
  have hlength : 9 ≤ (hashedName name hash).length := length_hashedName h
  have hnot : ∀ c, c ≠ '.' → c.isAlphanum = false → c ∉ name → c ∉ hashedName name hash := by
    intro c hdot halnum hname hmem
    rcases mem_hashedName hmem with hmem | hmem | hmem
    · exact hname hmem
    · exact hdot hmem
    · exact h.notMem halnum hmem
  have hlong : ∀ short : Name, short.length < 9 → hashedName name hash ≠ short := by
    rintro short hshort rfl
    omega
  exact {
    down := ⟨not_or.mpr ⟨hlong _ (by decide), hlong _ (by decide)⟩, hlong _ (by decide)⟩
    solid := hnot _ (by decide) (by decide) hname.solid
    noSlash := hnot _ (by decide) (by decide) hname.noSlash
    noBackslash := hnot _ (by decide) (by decide) hname.noBackslash }

/-- A name is known by its hashed name, whatever the hashes are. -/
theorem hashedName_inj (h : IsHash hash) (h' : IsHash hash') (heq : hashedName name hash = hashedName name' hash') :
    name = name' := by
  have hdots := h.notMem (c := '.') rfl
  have hdots' := h'.notMem (c := '.') rfl
  have mixed : ∀ {name stem ext hash hash' : Name}, '.' ∉ hash → '.' ∉ ext → '.' ∉ name.tail → stem ≠ [] →
      name ++ '.' :: hash ≠ stem ++ '.' :: hash' ++ '.' :: ext := by
    intro name stem ext hash hash' hhash hext hname hstem heq
    obtain ⟨rfl, -⟩ := eq_of_last_dot hhash hext heq
    refine hname ?_
    rw [List.tail_append_of_ne_nil hstem]
    simp
  rcases hashedName_parts name hash with ⟨hplain, htail⟩ | ⟨stem, ext, rfl, hext, hstem, hwith⟩
  · rcases hashedName_parts name' hash' with ⟨hplain', -⟩ | ⟨stem', ext', -, hext', hstem', hwith'⟩
    · rw [hplain, hplain'] at heq
      exact (eq_of_last_dot hdots hdots' heq).1
    · rw [hplain, hwith'] at heq
      exact absurd heq (mixed hdots hext' htail hstem')
  · rcases hashedName_parts name' hash' with ⟨hplain', htail'⟩ | ⟨stem', ext', rfl, hext', -, hwith'⟩
    · rw [hwith, hplain'] at heq
      exact absurd heq.symm (mixed hdots' hext htail' hstem)
    · rw [hwith, hwith'] at heq
      obtain ⟨hstems, rfl⟩ := eq_of_last_dot hext hext' heq
      rw [(eq_of_last_dot hdots hdots' hstems).1]

theorem hashedName_ne_manifest (h : IsHash hash) : hashedName name hash ≠ "manifest.json".toList := by
  have hmanifest : "manifest.json".toList = "manifest".toList ++ '.' :: "json".toList := by decide
  rw [hmanifest]
  intro heq
  rcases hashedName_parts name hash with ⟨hplain, -⟩ | ⟨stem, ext, -, hext, -, hwith⟩
  · rw [hplain] at heq
    obtain ⟨-, rfl⟩ := eq_of_last_dot (h.notMem rfl) (by decide) heq
    exact absurd h.length (by decide)
  · rw [hwith] at heq
    obtain ⟨hstem, -⟩ := eq_of_last_dot hext (by decide) heq
    have hdot : '.' ∈ "manifest".toList := by
      rw [← hstem]
      simp
    exact absurd hdot (by decide)

theorem components_relStr (h : ∀ name ∈ rel, IsPlainName name) (hne : rel ≠ []) :
    (Path.ofText (relStr rel)).absolute = false ∧ (Path.ofText (relStr rel)).components = rel := by
  have hnormal : Normal (relStr rel) := fun name hname => (h name (names_relStr h hne ▸ hname)).toIsName
  refine ⟨hnormal.relative, ?_⟩
  have hsegments : (Path.ofText (relStr rel)).segments = rel := names_relStr h hne
  have hplain : rel.filter Path.isPlain = rel := List.filter_eq_self.mpr fun name hname => (h name hname).toIsName.isPlain
  have hhead : rel.head? ≠ some ['.'] := fun hhead => (h _ (List.mem_of_head? hhead)).down.1 (.inr rfl)
  rw [Path.components, hsegments, if_neg fun hdot => hhead hdot.2, hplain]

theorem plain_hashedPath {init : List Name} {last : Name} (h : ∀ name ∈ init ++ [last], IsPlainName name)
    (hhash : IsHash hash) : ∀ name ∈ init ++ [hashedName last hash], IsPlainName name := by
  intro name hname
  rcases List.mem_append.mp hname with hname | hname
  · exact h name (by simp [hname])
  · exact List.mem_singleton.mp hname ▸ plain_hashedName (h last (by simp)) hhash

/-- A collected file is stored in its directory under its hashed name. -/
theorem getHashedRelativePath_eq {init : List Name} {last : Name} (h : ∀ name ∈ init ++ [last], IsPlainName name)
    (hhash : IsHash hash) :
    getHashedRelativePath (relStr (init ++ [last])) hash = relStr (init ++ [hashedName last hash]) := by
  obtain ⟨habsolute, hcomponents⟩ := components_relStr h (by simp)
  have hlast : IsPlainName last := h last (by simp)
  have hinit : ∀ name ∈ init, IsPlainName name := fun name hname => h name (by simp [hname])
  have hhashed := plain_hashedName hlast hhash
  have hparent : (Path.ofText (relStr (init ++ [last]))).parent = some ⟨false, init⟩ := by
    rw [Path.parent, hcomponents, habsolute, if_neg (by simp), List.dropLast_concat]
  have hnotdot : ¬(last = ['.'] ∨ last = ['.', '.']) := fun hdot => by
    rcases hdot with hdot | hdot
    · exact hlast.down.1 (.inr hdot)
    · exact hlast.down.2 hdot
  have hfile : (Path.ofText (relStr (init ++ [last]))).fileName = some last := by
    rw [Path.fileName, hcomponents, List.getLast?_concat]
    exact if_neg hnotdot
  have hname : (Path.ofText last).fileName = some last := by
    rw [Path.fileName, Path.components_single hlast.noSlash hlast.toIsName.isPlain, List.getLast?_singleton]
    exact if_neg hnotdot
  have hhashedName : hashedFileName last hash = hashedName last hash := by
    rw [hashedFileName, hname, hashedName, Option.map_some]
    rcases splitAtDot last with ⟨stem, _ | ext⟩ <;> rfl
  rw [getHashedRelativePath, hparent, hfile]
  simp only [Option.getD_some]
  rw [hhashedName]
  by_cases hnil : init = []
  · subst hnil
    rw [if_pos (by rfl), List.nil_append, relStr_eq (by simpa using hhashed), List.intercalate_singleton]
  · have htext : (⟨false, init⟩ : Path).text ≠ [] := by
      obtain ⟨first, rest, rfl⟩ := List.exists_cons_of_ne_nil hnil
      have hfirst : first ≠ [] := fun hempty => (hinit first (by simp)).down.1 (.inl hempty)
      rw [Path.text, if_neg Bool.false_ne_true]
      cases rest with
      | nil => rwa [List.intercalate_singleton]
      | cons next rest => simp [List.intercalate_cons_cons, hfirst]
    have hempty : (⟨false, init⟩ : Path).isEmpty = false := by
      obtain ⟨first, rest, rfl⟩ := List.exists_cons_of_ne_nil hnil
      have hfirst : first ≠ [] := fun hempty => (hinit first (by simp)).down.1 (.inl hempty)
      simp [Path.isEmpty, hfirst]
    have hrelative : (Path.ofText (hashedName last hash)).absolute = false :=
      decide_eq_false fun hslash => hhashed.noSlash (List.mem_of_head? hslash)
    have hsegments : (Path.ofText (hashedName last hash)).segments = [hashedName last hash] :=
      List.splitOn_eq_singleton hhashed.noSlash
    rw [if_neg htext, FileTree.Path.join, if_neg (by simp [hrelative]), if_neg (by simp [hempty]), hsegments, relStr, Path.text,
      if_neg Bool.false_ne_true]

theorem normal_relStr (h : ∀ name ∈ rel, IsPlainName name) (hne : rel ≠ []) : Normal (relStr rel) :=
  fun name hname => (h name (names_relStr h hne ▸ hname)).toIsName

/-- The keys of two collected files differ. -/
theorem getHashedRelativePath_inj (h : ∀ name ∈ rel, IsPlainName name) (h' : ∀ name ∈ rel', IsPlainName name) (hne : rel ≠ [])
    (hne' : rel' ≠ []) (hhash : IsHash hash) (hhash' : IsHash hash')
    (heq : getHashedRelativePath (relStr rel) hash = getHashedRelativePath (relStr rel') hash') : rel = rel' := by
  obtain ⟨init, last, rfl⟩ : ∃ init last, rel = init ++ [last] := ⟨_, _, (List.dropLast_concat_getLast hne).symm⟩
  obtain ⟨init', last', rfl⟩ : ∃ init last, rel' = init ++ [last] := ⟨_, _, (List.dropLast_concat_getLast hne').symm⟩
  rw [getHashedRelativePath_eq h hhash, getHashedRelativePath_eq h' hhash'] at heq
  have hlists := relStr_inj (plain_hashedPath h hhash) (plain_hashedPath h' hhash') (by simp) (by simp) heq
  have hinit := List.append_inj_left' hlists rfl
  have hlast := List.append_inj_right' hlists rfl
  rw [hinit, hashedName_inj hhash hhash' (List.cons.inj hlast).1]

theorem normal_getHashedRelativePath (h : ∀ name ∈ rel, IsPlainName name) (hne : rel ≠ []) (hhash : IsHash hash) :
    Normal (getHashedRelativePath (relStr rel) hash) ∧ getHashedRelativePath (relStr rel) hash ≠ "manifest.json".toList := by
  obtain ⟨init, last, rfl⟩ : ∃ init last, rel = init ++ [last] := ⟨_, _, (List.dropLast_concat_getLast hne).symm⟩
  rw [getHashedRelativePath_eq h hhash]
  refine ⟨normal_relStr (plain_hashedPath h hhash) (by simp), fun heq => ?_⟩
  have hnames := names_relStr (plain_hashedPath h hhash) (by simp)
  have hmanifest : names "manifest.json".toList = ["manifest.json".toList] :=
    List.splitOn_eq_singleton (by decide)
  rw [heq, hmanifest] at hnames
  have hsplit : [] ++ ["manifest.json".toList] = init ++ [hashedName last hash] := hnames
  exact hashedName_ne_manifest hhash (List.cons.inj (List.append_inj_right' hsplit rfl)).1.symm

end Keys

/-! ### Saving -/

/-- A storage that keeps what it has saved under paths of names. -/
structure Storage.Keeps {σ ε : Type} (storage : Storage σ ε) (good : σ → Prop) (reads : σ → List Char → Option (List UInt8)) :
    Prop where
  kept : ∀ s key content s' r, good s → Normal key → storage.save s key content = (s', .ok r) → good s'
  same : ∀ s key content s' r, good s → Normal key → storage.save s key content = (s', .ok r) → reads s' key = some content
  others : ∀ s key content s' r, good s → Normal key → storage.save s key content = (s', .ok r) →
    ∀ other, Normal other → other ≠ key → reads s' other = reads s other

section Saving
variable {σ ε : Type} {t : Tree} {cwd : List Name} {storage : Storage σ ε} {good : σ → Prop}
  {reads : σ → List Char → Option (List UInt8)} {s s' : σ} {files : List (List Char × Path)}
  {mapping mapping' : List (List Char × List Char)}

/-- What is read of a collected file. -/
def contentOf (t : Tree) (cwd : List Name) (file : List Char × Path) : List UInt8 := (readFile t cwd file.2).toOption.getD []

/-- The key that a collected file is stored under. -/
def keyOf (t : Tree) (cwd : List Name) (file : List Char × Path) : List Char :=
  getHashedRelativePath file.1 (hashPrefix (contentOf t cwd file))

theorem saveFiles_spec (hstorage : storage.Keeps good reads) (hgood : good s)
    (hkeys : ∀ file ∈ files, Normal (keyOf t cwd file)) (hdistinct : files.Pairwise fun a b => keyOf t cwd a ≠ keyOf t cwd b)
    (h : saveFiles (t := t) cwd storage s files mapping = (s', .ok mapping')) :
    good s' ∧ mapping' = mapping ++ files.map (fun file => (file.1, keyOf t cwd file)) ∧
      (∀ file ∈ files, reads s' (keyOf t cwd file) = some (contentOf t cwd file)) ∧
      ∀ other, Normal other → (∀ file ∈ files, other ≠ keyOf t cwd file) → reads s' other = reads s other := by
  induction files generalizing s mapping with
  | nil =>
    cases h
    exact ⟨hgood, (List.append_nil _).symm, by simp, fun _ _ _ => rfl⟩
  | cons file files ih =>
    obtain ⟨relPath, absPath⟩ := file
    obtain ⟨hfirst, hrest⟩ := List.pairwise_cons.mp hdistinct
    rw [saveFiles] at h
    split at h
    · cases h
    · rename_i content hread
      have hcontent : contentOf t cwd (relPath, absPath) = content := by rw [contentOf, hread]; rfl
      have hkey : getHashedRelativePath relPath (hashPrefix content) = keyOf t cwd (relPath, absPath) := by rw [keyOf, hcontent]
      dsimp only at h
      rw [hkey] at h
      split at h
      · cases h
      · rename_i next r hsave
        have hnormal := hkeys (relPath, absPath) (by simp)
        obtain ⟨hgood', hmapping, hread', hothers⟩ := ih (hstorage.kept _ _ _ _ _ hgood hnormal hsave)
          (fun f hf => hkeys f (by simp [hf])) hrest h
        refine ⟨hgood', ?_, fun f hf => ?_, fun other hother hne => ?_⟩
        · rw [hmapping, List.map_cons, List.append_assoc, List.singleton_append]
        · rcases List.mem_cons.mp hf with rfl | hf
          · rw [hothers _ hnormal hfirst, hstorage.same _ _ _ _ _ hgood hnormal hsave, hcontent]
          · exact hread' f hf
        · rw [hothers other hother fun f hf => hne f (by simp [hf]),
            hstorage.others _ _ _ _ _ hgood hnormal hsave other hother (hne _ (by simp))]

theorem exists_saveFiles (files : List (List Char × Path)) (hsave : ∀ s key content, ∃ s' r, storage.save s key content = (s', .ok r))
    (hread : ∀ file ∈ files, ∃ content, readFile t cwd file.2 = .ok content) (s : σ)
    (mapping : List (List Char × List Char)) :
    ∃ s' mapping', saveFiles (t := t) cwd storage s files mapping = (s', .ok mapping') := by
  induction files generalizing s mapping with
  | nil => exact ⟨s, mapping, rfl⟩
  | cons file files ih =>
    obtain ⟨content, hcontent⟩ := hread file (by simp)
    obtain ⟨next, r, hnext⟩ := hsave s (getHashedRelativePath file.1 (hashPrefix content)) content
    obtain ⟨s', mapping', hrest⟩ := ih (fun f hf => hread f (by simp [hf])) next
      (mapping ++ [(file.1, getHashedRelativePath file.1 (hashPrefix content))])
    refine ⟨s', mapping', ?_⟩
    rw [saveFiles, hcontent]
    dsimp only
    rw [hnext]
    exact hrest

end Saving

/-! ### Manifests -/

section Manifests
variable {t : Tree} {cwd : List Name} {dirs : List Path} {collected : List (List Char × Path)}

/-- What is known of a collected file. -/
theorem Collected.file (h : Collected t cwd dirs collected) (htidy : TidySources t cwd dirs) {file : List Char × Path}
    (hfile : file ∈ collected) : ∃ rel dir, file.1 = relStr rel ∧ (∀ name ∈ rel, IsPlainName name) ∧ rel ≠ [] ∧
      dirs.find? (holds t cwd rel) = some dir ∧ readFile t cwd file.2 = .ok (contentOf t cwd file) ∧
      standing t cwd dir rel = some (.file (contentOf t cwd file)) := by
  obtain ⟨key, path⟩ := file
  obtain ⟨rel, dir, rfl, rfl, hfind⟩ := (h.mem _ _).mp hfile
  have hheld := List.find?_some hfind
  have hdir := htidy dir (List.mem_of_find?_eq_some hfind)
  have hplain := plain_of_holds hdir hheld
  have hne : rel ≠ [] := by
    rintro rfl
    rw [not_holds_nil] at hheld
    cases hheld
  obtain ⟨content, hcontent⟩ := holds_iff.mp hheld
  obtain ⟨p, hroot, hnode⟩ := Option.bind_eq_some_iff.mp hcontent
  have hread := readFile_below hroot (hdir p hroot) (fun name hname => (hplain name hname).toIsName) hnode
  have hcontentOf : contentOf t cwd (relStr rel, below dir rel) = content := by
    rw [contentOf, hread]
    rfl
  exact ⟨rel, dir, rfl, hplain, hne, hfind, by rw [hcontentOf]; exact hread, by rw [hcontentOf]; exact hcontent⟩

theorem Collected.normal_keyOf (h : Collected t cwd dirs collected) (htidy : TidySources t cwd dirs) {file : List Char × Path}
    (hfile : file ∈ collected) : Normal (keyOf t cwd file) ∧ keyOf t cwd file ≠ "manifest.json".toList := by
  obtain ⟨rel, dir, hkey, hplain, hne, -⟩ := h.file htidy hfile
  rw [keyOf, hkey]
  exact normal_getHashedRelativePath hplain hne (isHash_hashPrefix _)

theorem Collected.keyOf_inj (h : Collected t cwd dirs collected) (htidy : TidySources t cwd dirs) {a b : List Char × Path}
    (ha : a ∈ collected) (hb : b ∈ collected) (heq : keyOf t cwd a = keyOf t cwd b) : a.1 = b.1 := by
  obtain ⟨rel, dir, hkey, hplain, hne, -⟩ := h.file htidy ha
  obtain ⟨rel', dir', hkey', hplain', hne', -⟩ := h.file htidy hb
  rw [keyOf, keyOf, hkey, hkey'] at heq
  rw [hkey, hkey', getHashedRelativePath_inj hplain hplain' hne hne' (isHash_hashPrefix _) (isHash_hashPrefix _) heq]

/-- The keys of collected files, in any order, are distinct. -/
theorem Collected.pairwise_keyOf (h : Collected t cwd dirs collected) (htidy : TidySources t cwd dirs)
    {files : List (List Char × Path)} (hperm : files.Perm collected) :
    files.Pairwise fun a b => keyOf t cwd a ≠ keyOf t cwd b := by
  have hnodup : (files.map (·.1)).Nodup := (hperm.map _).nodup_iff.mpr h.nodup
  refine (List.pairwise_map.mp hnodup).imp_of_mem fun ha hb hne heq => hne ?_
  exact h.keyOf_inj htidy (hperm.mem_iff.mp ha) (hperm.mem_iff.mp hb) heq

end Manifests

/-- What a collection has stored: under the paths between single slashes that are served, what is served there. -/
structure Mirrors {σ : Type} (reads : σ → List Char → Option (List UInt8)) (t : Tree) (cwd : List Name) (dirs : List Path)
    (s : σ) (manifest : Manifest) : Prop where
  normal : ∀ entry ∈ manifest.mapping, Normal entry.1
  paths : (manifest.mapping.map (·.1)).Nodup
  keys : (manifest.mapping.map (·.2)).Nodup
  served : ∀ message req params response, Normal (relPath req params) →
    (serve message cwd t (dirs.map LocalDiskStorage.mk) req params = .ok response ↔
      ∃ key bytes, (relPath req params, key) ∈ manifest.mapping ∧ reads s key = some bytes ∧
        StaticFiles.served req params (some bytes) = .ok response)

theorem relStr_names {path : List Char} (h : ∀ name ∈ names path, IsPlainName name) : relStr (names path) = path := by
  rw [relStr_eq h, names, List.intercalate_splitOn]

theorem normal_manifest : Normal "manifest.json".toList := by
  have hnames : names "manifest.json".toList = ["manifest.json".toList] := List.splitOn_eq_singleton (by decide)
  intro name hname
  rw [hnames, List.mem_singleton] at hname
  subst hname
  exact ⟨by decide, by decide⟩

theorem serve_eq_ok {message : Error → List Char} {cwd : List Name} {t : Tree} {backends : List LocalDiskStorage}
    {req : Http.Request} {params : Http.PathParams} {response : Http.Response} :
    serve message cwd t backends req params = .ok response ↔
      ∃ bytes, find message cwd t (relPath req params) backends = .ok (some bytes) ∧
        served req params (some bytes) = .ok response := by
  rw [serve]
  cases find message cwd t (relPath req params) backends with
  | error e => simp
  | ok content => cases content <;> simp [served]

theorem Collected.mirrors {σ : Type} {reads : σ → List Char → Option (List UInt8)} {t : Tree} {cwd : List Name}
    {dirs : List Path} {collected files : List (List Char × Path)} {s : σ} (h : Collected t cwd dirs collected)
    (htidy : TidySources t cwd dirs) (hunhidden : Unhidden t cwd dirs) (hperm : files.Perm collected)
    (hreads : ∀ file ∈ files, reads s (keyOf t cwd file) = some (contentOf t cwd file)) :
    Mirrors reads t cwd dirs s ⟨files.map fun file => (file.1, keyOf t cwd file)⟩ where
  normal entry hentry := by
    obtain ⟨file, hfile, rfl⟩ := List.mem_map.mp hentry
    obtain ⟨rel, dir, hkey, hplain, hne, -⟩ := h.file htidy (hperm.mem_iff.mp hfile)
    exact hkey ▸ normal_relStr hplain hne
  paths := by
    rw [List.map_map]
    exact (hperm.map _).nodup_iff.mpr h.nodup
  keys := by
    rw [List.map_map]
    exact List.pairwise_map.mpr (h.pairwise_keyOf htidy hperm)
  served message req params response hnormal := by
    rw [serve_eq_ok]
    constructor
    · rintro ⟨bytes, hfind, hserved⟩
      obtain ⟨dir, hdir, hfile⟩ := (find_normal htidy hunhidden hnormal).mp hfind
      have hplain := plain_of_standing (htidy dir (List.mem_of_find?_eq_some hdir)) (by rw [hfile]; nofun)
      have hmem : (relPath req params, below dir (names (relPath req params))) ∈ collected :=
        (h.mem _ _).mpr ⟨names (relPath req params), dir, (relStr_names hplain).symm, rfl, hdir⟩
      obtain ⟨rel', dir', hkey, hplain', hne', hdir', -, hfile'⟩ := h.file htidy hmem
      have hrel : names (relPath req params) = rel' := by
        have hkey : relPath req params = relStr rel' := hkey
        rw [hkey, names_relStr hplain' hne']
      subst hrel
      rw [hdir, Option.some_inj] at hdir'
      subst hdir'
      rw [hfile, Option.some_inj, Node.file.injEq] at hfile'
      refine ⟨_, bytes, List.mem_map.mpr ⟨_, hperm.mem_iff.mpr hmem, rfl⟩, ?_, hserved⟩
      rw [hreads _ (hperm.mem_iff.mpr hmem), ← hfile']
    · rintro ⟨key, bytes, hentry, hbytes, hserved⟩
      obtain ⟨file, hfile, heq⟩ := List.mem_map.mp hentry
      obtain ⟨hpath, rfl⟩ := Prod.mk.inj heq
      obtain ⟨rel, dir, hkey, hplain, hne, hdir, -, hstanding⟩ := h.file htidy (hperm.mem_iff.mp hfile)
      rw [hreads file hfile, Option.some_inj] at hbytes
      have hrel : names (relPath req params) = rel := by rw [← hpath, hkey, names_relStr hplain hne]
      refine ⟨bytes, (find_normal htidy hunhidden hnormal).mpr ⟨dir, ?_, ?_⟩, hserved⟩
      · rw [hrel, hdir]
      · rw [hrel, hstanding, hbytes]

theorem exists_collectFiles {t : Tree} {cwd : List Name} (listing : Listing t) {dirs : List Path}
    (htidy : TidySources t cwd dirs) (hlist : ∀ p, t.node p = some .dir → ∃ names, listing.entries p = .ok names)
    {depth : Nat} (hdepth : ∀ p, t.node p ≠ none → p.length < depth) :
    ∃ collected, collectFiles cwd listing depth dirs = .ok collected := by
  have hrun : ∃ collected, collectFiles cwd listing depth dirs = .ok collected ∧ True := by
    refine Except.foldlM_ok (P := fun _ => True) trivial fun dir hdir collected _ => ?_
    have hfiles : ∃ files, filesOf cwd listing depth dir = .ok files := by
      rw [filesOf]
      split
      · rename_i hisDir
        rw [Bool.and_eq_true, isDir_iff] at hisDir
        obtain ⟨-, p, hroot⟩ := hisDir
        refine exists_walkDir hroot (htidy dir hdir p hroot) (by simp) ?_ hlist fun q hq => ?_
        · rw [List.append_nil, (root?_eq_some.mp hroot).2]
        · exact Nat.lt_of_lt_of_le (hdepth q hq) (Nat.le_add_left ..)
      · exact ⟨_, rfl⟩
    obtain ⟨files, hfiles⟩ := hfiles
    exact ⟨_, Except.bind_eq_ok.mpr ⟨files, hfiles, rfl⟩, trivial⟩
  obtain ⟨collected, h, -⟩ := hrun
  exact ⟨collected, h⟩

section Collections
variable {σ ε : Type} {t : Tree} {cwd : List Name} {listing : Listing t} {storage : Storage σ ε} {good : σ → Prop}
  {reads : σ → List Char → Option (List UInt8)} {dirs : List Path}
  {iterate : List (List Char × Path) → List (List Char × Path)} {json : Manifest → Option (List UInt8)} {depth : Nat}

theorem mirrors_of_collectTo (hstorage : storage.Keeps good reads) (htidy : TidySources t cwd dirs)
    (hunhidden : Unhidden t cwd dirs) (hiterate : ∀ l, (iterate l).Perm l) {s s' : σ} (hgood : good s) {manifest : Manifest}
    (h : collectTo cwd storage listing depth iterate json dirs s = (s', .ok manifest)) :
    Mirrors reads t cwd dirs s' manifest := by
  rw [collectTo] at h
  split at h
  · cases h
  · rename_i collected hcollected
    have hall := collected_collectFiles htidy hcollected
    have hperm := hiterate collected
    split at h
    · cases h
    · rename_i next mapping hsaved
      split at h
      · cases h
      · split at h
        · cases h
        · rename_i final r hmanifest
          cases h
          obtain ⟨hnext, hmapping, hreads, -⟩ := saveFiles_spec hstorage hgood
            (fun file hfile => (hall.normal_keyOf htidy (hperm.mem_iff.mp hfile)).1) (hall.pairwise_keyOf htidy hperm) hsaved
          rw [List.nil_append] at hmapping
          subst hmapping
          have hreads : ∀ file ∈ iterate collected, reads s' (keyOf t cwd file) = some (contentOf t cwd file) := by
            intro file hfile
            obtain ⟨hkey, hne⟩ := hall.normal_keyOf htidy (hperm.mem_iff.mp hfile)
            rw [hstorage.others _ _ _ _ _ hnext normal_manifest hmanifest _ hkey hne, hreads file hfile]
          exact hall.mirrors htidy hunhidden hperm hreads

theorem exists_collectTo (htidy : TidySources t cwd dirs) (hiterate : ∀ l, (iterate l).Perm l)
    (hlist : ∀ p, t.node p = some .dir → ∃ names, listing.entries p = .ok names)
    (hsave : ∀ s key content, ∃ s' r, storage.save s key content = (s', .ok r)) (hjson : ∀ manifest, json manifest ≠ none)
    (hdepth : ∀ p, t.node p ≠ none → p.length < depth) (s : σ) :
    ∃ s' manifest, collectTo cwd storage listing depth iterate json dirs s = (s', .ok manifest) := by
  obtain ⟨collected, hcollected⟩ := exists_collectFiles listing htidy hlist hdepth
  have hall := collected_collectFiles htidy hcollected
  obtain ⟨next, mapping, hsaved⟩ := exists_saveFiles (iterate collected) hsave (fun file hfile => by
    obtain ⟨-, -, -, -, -, -, hread, -⟩ := hall.file htidy ((hiterate collected).mem_iff.mp hfile)
    exact ⟨_, hread⟩) s []
  obtain ⟨text, htext⟩ := Option.ne_none_iff_exists'.mp (hjson ⟨mapping⟩)
  obtain ⟨final, r, hfinal⟩ := hsave next "manifest.json".toList text
  refine ⟨final, ⟨mapping⟩, ?_⟩
  rw [collectTo, hcollected]
  dsimp only
  rw [hsaved]
  dsimp only
  rw [htext]
  dsimp only
  rw [hfinal]

end Collections

theorem names_inj {key key' : List Char} (h : names key = names key') : key = key' := by
  have htexts := congrArg (['/'].intercalate ·) h
  rwa [names, names, List.intercalate_splitOn, List.intercalate_splitOn] at htexts

/-- The local disk is such a storage, below a root without links. -/
theorem disk_keeps (disk : LocalDiskStorage) (cwd root : List Name) :
    (⟨fun t key bytes => disk.save cwd t key bytes⟩ : Storage Tree Error).Keeps
      (fun t => disk.Rooted cwd t root ∧ ∀ q target, t.node (root ++ q) ≠ some (.link target))
      (fun t key => content t root key) := by
  have way : ∀ {t : Tree} {key : List Char}, (∀ q target, t.node (root ++ q) ≠ some (.link target)) → Normal key →
      Way t root (names key) := fun hfree hkey => ⟨hkey, fun q _ target => hfree q target⟩
  constructor
  · rintro t key bytes t' r ⟨hrooted, hfree⟩ hkey hsave
    obtain ⟨hchanged, -⟩ := hrooted.save_spec (way hfree hkey) bytes
    rw [show disk.save cwd t key bytes = (t', .ok r) from hsave] at hchanged
    exact ⟨hrooted.kept hchanged.keeps, fun q target => mt (hchanged.link _ target).mp (hfree q target)⟩
  · rintro t key bytes t' r ⟨hrooted, hfree⟩ hkey hsave
    obtain ⟨-, hsaved, -⟩ := hrooted.save_spec (way hfree hkey) bytes
    rw [show disk.save cwd t key bytes = (t', .ok r) from hsave] at hsaved
    rw [content, hsaved rfl]
  · rintro t key bytes t' r ⟨hrooted, hfree⟩ hkey hsave other hother hne
    obtain ⟨hchanged, -⟩ := hrooted.save_spec (way hfree hkey) bytes
    rw [show disk.save cwd t key bytes = (t', .ok r) from hsave] at hchanged
    by_cases hsame : t'.node (root ++ names other) = t.node (root ++ names other)
    · exact LocalDiskStorage.content_congr hsame
    · rcases hchanged.at_most _ hsame with ⟨hnone, hdir, -⟩ | ⟨heq, -, -⟩
      · rw [content, content, hnone, hdir]
      · exact absurd (names_inj (List.append_cancel_left heq)) hne

def shelf : Tree where
  node q := if q = [] ∨ q = [['s']] then some .dir else if q = [['s'], ['a']] then some (.file [1]) else none
  root := by simp
  parent path name h := by
    have hpath : path ++ [name] = [['s']] ∨ path ++ [name] = [['s'], ['a']] := by
      by_contra hnone
      rw [not_or] at hnone
      exact h (by simp [hnone.1, hnone.2])
    have hinit : path = [] ∨ path = [['s']] := by
      rcases hpath with h | h
      · exact .inl (by simpa using congrArg List.dropLast h)
      · exact .inr (by simpa using congrArg List.dropLast h)
    rw [if_pos hinit]

theorem shelf_node {q : List Name} : shelf.node q ≠ none ↔ q = [] ∨ q = [['s']] ∨ q = [['s'], ['a']] := by
  rw [shelf]
  dsimp only
  split
  · rename_i h
    exact iff_of_true nofun (h.elim .inl fun h => .inr (.inl h))
  · rename_i h
    rw [not_or] at h
    split
    · rename_i hfile
      exact iff_of_true nofun (.inr (.inr hfile))
    · rename_i hfile
      exact iff_of_false (fun h => h rfl) (not_or.mpr ⟨h.1, not_or.mpr ⟨h.2, hfile⟩⟩)

def shelfEntries (p : List Name) : List Name := if p = [] then [['s']] else if p = [['s']] then [['a']] else []

theorem mem_shelfEntries (p : List Name) (name : Name) : name ∈ shelfEntries p ↔ shelf.node (p ++ [name]) ≠ none := by
  rw [shelf_node, shelfEntries]
  have hfirst : p ++ [name] = [['s']] ↔ p = [] ∧ name = ['s'] :=
    ⟨fun h => ⟨by simpa using congrArg List.dropLast h, by simpa using congrArg List.getLast? h⟩, by rintro ⟨rfl, rfl⟩; rfl⟩
  have hsecond : p ++ [name] = [['s'], ['a']] ↔ p = [['s']] ∧ name = ['a'] :=
    ⟨fun h => ⟨by simpa using congrArg List.dropLast h, by simpa using congrArg List.getLast? h⟩, by rintro ⟨rfl, rfl⟩; rfl⟩
  rw [hfirst, hsecond]
  by_cases hroot : p = []
  · subst hroot
    simp
  · by_cases hshelf : p = [['s']]
    · subst hshelf
      simp
    · simp [hroot, hshelf]

def shelfListing : Listing shelf where
  entries p := .ok (shelfEntries p)
  nodup p names h := by
    cases h
    rw [shelfEntries]
    split
    · exact List.nodup_singleton _
    · split
      · exact List.nodup_singleton _
      · exact List.nodup_nil
  mem p names h name := by
    cases h
    exact mem_shelfEntries p name

def shelfDir : Path := .ofText ['/', 's']

theorem shelf_tidy : TidySources shelf [] [shelfDir] := by
  intro dir hdir p hroot
  rw [List.mem_singleton.mp hdir] at hroot
  have hshelf : root? shelf [] shelfDir = some [['s']] := by rfl
  rw [hshelf, Option.some_inj] at hroot
  subst hroot
  refine ⟨fun q hq => ?_, fun q target hlink => ?_⟩
  · rcases shelf_node.mp hq with h | h | h
    · cases h
    · cases (List.cons.inj h).2
      exact nofun
    · cases (List.cons.inj h).2
      intro name hname
      rw [List.mem_singleton.mp hname]
      exact ⟨⟨by decide, by decide⟩, by decide, by decide⟩
  · rw [shelf] at hlink
    dsimp only at hlink
    split at hlink
    · cases hlink
    · split at hlink <;> cases hlink

theorem shelf_depth (p : List Name) (hp : shelf.node p ≠ none) : p.length < 3 := by
  rcases shelf_node.mp hp with rfl | rfl | rfl <;> decide

/-- A storage in memory. -/
def memory : Storage (List Char → Option (List UInt8)) Unit :=
  ⟨fun s key content => (Function.update s key (some content), .ok key)⟩

theorem memory_keeps : memory.Keeps (fun _ => True) fun s key => s key where
  kept _ _ _ _ _ _ _ _ := trivial
  same s key content s' r _ _ hsave := by
    cases hsave
    exact Function.update_self ..
  others s key content s' r _ _ hsave other _ hne := by
    cases hsave
    exact Function.update_of_ne hne ..

def dotted : Http.Request := ⟨.get, "/static/./a".toList, [], ⟨none, none⟩, []⟩

end Djangors.StaticFiles
