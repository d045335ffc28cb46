import Djangors.StaticFiles.Storage

/-! # What local storage keeps

As long as keys are names under the root, apart from each other and from the directories that stand there, local storage
is a map of its keys that changes nothing outside of its root. -/

namespace FileTree

section Settled
variable {t : Tree} {cwd cur segments p : List Name} {path : Path} {n : Nat}

/-- Something stands there, and it is not a link. -/
def Settled (t : Tree) (p : List Name) : Prop := t.node p ≠ none ∧ ∀ target, t.node p ≠ some (.link target)

theorem settled_of_dir (h : t.node p = some .dir) : Settled t p := by simp [Settled, h]

theorem Leads.settled (h : Leads t n cur segments p) (hcur : Settled t cur) : Settled t p := by
  induction h with
  | here => exact hcur
  | stay hdir _ _ ih => exact ih (settled_of_dir hdir)
  | @up _ cur _ _ hdir _ ih =>
    refine ih (settled_of_dir ?_)
    rcases List.eq_nil_or_concat cur with rfl | ⟨init, last, rfl⟩
    · exact t.root
    · rw [List.concat_eq_append] at hdir ⊢
      rw [List.dropLast_concat]
      exact t.parent init last (by simp [hdir])
  | down _ _ hnode hfree _ ih => exact ih ⟨hnode, hfree⟩
  | through hdir _ _ _ ih =>
    refine ih (settled_of_dir ?_)
    split
    · exact t.root
    · exact hdir

theorem settled_of_canonicalize (h : canonicalize t cwd path = .ok p) : Settled t p := by
  rw [canonicalize, lookup] at h
  by_cases hempty : path.isEmpty = true
  · rw [if_pos hempty] at h
    cases h
  · rw [if_neg hempty] at h
    split at h
    · rename_i hlookup
      split at hlookup
      · cases hlookup
      · cases h
        obtain ⟨n, -, hleads⟩ := leads_of_walk hlookup
        refine hleads.settled ?_
        generalize hsegments : path.segments = segments at hleads
        cases hleads with
        | here =>
          -- Only the root is named without a segment.
          have habsolute : path.absolute = true := by simpa [Path.isEmpty, hsegments] using hempty
          rw [start, if_pos habsolute]
          exact settled_of_dir t.root
        | stay hdir _ _ | up hdir _ | down hdir _ _ _ _ | through hdir _ _ _ => exact settled_of_dir hdir
    · cases h
    · cases h

end Settled
end FileTree

namespace Djangors.StaticFiles
open FileTree Http

/-- The names that a key is made of. -/
def names (key : List Char) : List Name := key.splitOn '/'

/-- What is read at the path of a key. -/
def content (t : Tree) (root : List Name) (key : List Char) : Option (List UInt8) :=
  match t.node (root ++ names key) with
  | some (.file content) => some content
  | _ => none

/-- Keys that are names under a directory, of which none leads through another one, to a directory or through a link. -/
structure Apart (t : Tree) (root : List Name) (keys : Set (List Char)) : Prop where
  way : ∀ key ∈ keys, Way t root (names key)
  free : ∀ key ∈ keys, t.node (root ++ names key) ≠ some .dir
  apart : ∀ key ∈ keys, ∀ key' ∈ keys, names key <+: names key' → key = key'

/-- What a call may change: directories come up on the way to a key, and a file at the key comes or goes. -/
structure Changed (t t' : Tree) (root names : List Name) : Prop where
  at_most : ∀ q, t'.node q ≠ t.node q → (t.node q = none ∧ t'.node q = some .dir ∧
      ∃ above, above <+: names ∧ above ≠ names ∧ q = root ++ above) ∨
    (q = root ++ names ∧ t.node q ≠ some .dir ∧ t'.node q ≠ some .dir)
  link : ∀ q target, t'.node q = some (.link target) ↔ t.node q = some (.link target)

section Changed
variable {t t' : Tree} {root : List Name} {keys : Set (List Char)} {key key' : List Char}

theorem names_ne_nil (key : List Char) : names key ≠ [] := List.splitOn_ne_nil _ _

theorem Changed.refl {names : List Name} : Changed t t root names := ⟨fun _ h => absurd rfl h, fun _ _ => Iff.rfl⟩

theorem Changed.keeps {names : List Name} (h : Changed t t' root names) : Keeps t t' where
  dir q hq := by
    by_contra hne
    rcases h.at_most q (by rwa [hq]) with ⟨hnone, -⟩ | ⟨-, hdir, -⟩
    · rw [hq] at hnone
      cases hnone
    · exact hdir hq
  link := h.link

theorem Changed.under {names q : List Name} (h : Changed t t' root names) (hq : t'.node q ≠ t.node q) : root <+: q := by
  rcases h.at_most q hq with ⟨-, -, above, -, -, rfl⟩ | ⟨rfl, -, -⟩ <;> exact List.prefix_append _ _

/-- Nothing changes at another key. -/
theorem Changed.other (h : Changed t t' root (names key)) (hkeys : Apart t root keys) (hkey : key ∈ keys)
    (hkey' : key' ∈ keys) (hne : key' ≠ key) : t'.node (root ++ names key') = t.node (root ++ names key') := by
  by_contra hchanged
  rcases h.at_most _ hchanged with ⟨-, -, above, habove, -, heq⟩ | ⟨heq, -, -⟩
  · rw [List.append_cancel_left heq.symm] at habove
    exact hne (hkeys.apart _ hkey' _ hkey habove)
  · exact hne (hkeys.apart _ hkey' _ hkey (List.append_cancel_left heq ▸ List.prefix_rfl))

theorem Changed.apart (h : Changed t t' root (names key)) (hkeys : Apart t root keys) (hkey : key ∈ keys) :
    Apart t' root keys where
  way key' hkey' := (hkeys.way key' hkey').kept h.keeps
  free key' hkey' := by
    by_cases hchanged : t'.node (root ++ names key') = t.node (root ++ names key')
    · rw [hchanged]
      exact hkeys.free key' hkey'
    · rcases h.at_most _ hchanged with ⟨-, -, above, habove, hne, heq⟩ | ⟨-, -, hdir⟩
      · obtain rfl := List.append_cancel_left heq
        exact absurd (congrArg names (hkeys.apart _ hkey' _ hkey habove)) hne
      · exact hdir
  apart := hkeys.apart

theorem Changed.of_grown {names names' : List Name} (h : Grown t t' root names') (hle : names' <+: names)
    (hne : names' ≠ names) : Changed t t' root names where
  at_most q hq := by
    obtain ⟨hnone, hdir⟩ := h.same q hq
    obtain ⟨above, habove, heq⟩ := h.way q hq
    refine .inl ⟨hnone, hdir, above, habove.trans hle, ?_, heq⟩
    rintro rfl
    exact hne (hle.eq_of_length (Nat.le_antisymm hle.length_le habove.length_le))
  link := h.keeps.link

/-- A file comes or goes at the names after directories have come up. -/
theorem Changed.put {names : List Name} {node : Option Node} (h : Changed t t' root names) {t'' : Tree}
    (hput : t''.node = Function.update t'.node (root ++ names) node) (hway : Way t' root names)
    (hfree : t'.node (root ++ names) ≠ some .dir) (hnode : node ≠ some .dir) (hlink : ∀ target, node ≠ some (.link target)) :
    Changed t t'' root names where
  at_most q hq := by
    by_cases heq : q = root ++ names
    · subst heq
      refine .inr ⟨rfl, mt (h.keeps.dir _) hfree, ?_⟩
      rwa [hput, Function.update_self]
    · rw [hput, Function.update_of_ne heq] at hq ⊢
      exact h.at_most q hq
  link q target := by
    by_cases heq : q = root ++ names
    · subst heq
      rw [hput, Function.update_self]
      exact iff_of_false (hlink target) (mt (h.link _ target).mpr (hway.free _ List.prefix_rfl target))
    · rw [hput, Function.update_of_ne heq]
      exact h.link q target

end Changed

namespace LocalDiskStorage
variable {storage : LocalDiskStorage} {cwd : List Name} {t : Tree} {root : List Name} {keys : Set (List Char)}
  {key : List Char}

/-- The root of the storage is a directory. -/
structure Rooted (storage : LocalDiskStorage) (cwd : List Name) (t : Tree) (root : List Name) : Prop where
  canonical : canonicalize t cwd storage.root = .ok root
  dir : t.node root = some .dir

theorem Rooted.base (h : storage.Rooted cwd t root) : Base t cwd storage.root root :=
  base_of_canonicalize h.canonical h.dir

theorem Rooted.nonempty (h : storage.Rooted cwd t root) : storage.root.isEmpty = false := by
  by_contra hempty
  have hcanonical := h.canonical
  rw [canonicalize, lookup, if_pos (eq_true_of_ne_false hempty)] at hcanonical
  cases hcanonical

theorem Rooted.kept {t' : Tree} (h : storage.Rooted cwd t root) (hkept : Keeps t t') : storage.Rooted cwd t' root :=
  ⟨(h.base.kept hkept).canonicalize_eq h.nonempty, hkept.dir _ h.dir⟩

theorem Rooted.target_eq (h : storage.Rooted cwd t root) (hway : Way t root (names key)) :
    storage.target key = below storage.root (names key) := by
  have hrelative : key.head? ≠ some '/' := by
    intro hslash
    obtain ⟨rest, rfl⟩ : ∃ rest, key = '/' :: rest := by
      cases key with
      | nil => cases hslash
      | cons c rest => exact ⟨rest, by simpa using hslash⟩
    have hsplit : names ('/' :: rest) = [[]] ++ names rest := List.splitOn_append_cons_self [] rest
    have hfirst : ([] : Name) ∈ names ('/' :: rest) := by simp [hsplit]
    exact (hway.each _ hfirst).down.1 (.inl rfl)
  have habsolute : (Path.ofText key).absolute = false := decide_eq_false hrelative
  simp only [target, FileTree.Path.join, habsolute, h.nonempty, Bool.false_eq_true, if_false]
  rfl

theorem Rooted.components_below {names : List Name} (h : storage.Rooted cwd t root) (hway : Way t root names) :
    (below storage.root names).components = storage.root.components ++ names := by
  have hplain : names.filter Path.isPlain = names :=
    List.filter_eq_self.mpr fun name hname => (hway.each name hname).isPlain
  have hnonempty := h.nonempty
  rw [Path.components, Path.components, below, List.filter_append, hplain]
  cases habsolute : storage.root.absolute with
  | true => simp
  | false =>
    have hsome : storage.root.segments ≠ [] := by
      intro hnil
      simp [Path.isEmpty, habsolute, hnil] at hnonempty
    rw [List.head?_append_of_ne_nil _ hsome]
    split <;> rfl

theorem Rooted.parent_target (h : storage.Rooted cwd t root) (hway : Way t root (names key)) :
    (storage.target key).parent =
      some ⟨storage.root.absolute, storage.root.components ++ (names key).dropLast⟩ := by
  rw [h.target_eq hway, Path.parent, h.components_below hway, if_neg (by simp [names_ne_nil]),
    List.dropLast_append_of_ne_nil (names_ne_nil key)]
  rfl

theorem Rooted.resolvePath_eq (h : storage.Rooted cwd t root) (hway : Way t root (names key)) :
    storage.resolvePath cwd t key =
      if t.node (root ++ names key) = none then none else some (root ++ names key) := by
  have hkey : key ≠ [] := by
    rintro rfl
    exact (hway.each [] (by simp [names])).down.1 (.inl rfl)
  rw [resolvePath, if_neg hkey, h.target_eq hway, pathExists, h.canonical]
  rcases h.base.canonicalize_below hway (names_ne_nil key) with ⟨hthere, heq⟩ | ⟨hnone, e, heq⟩
  · rw [heq, if_neg hthere]
    simp [Except.toBool]
  · rw [heq, if_pos hnone]
    simp [Except.toBool]

theorem openFile_eq (h : storage.Rooted cwd t root) (hkeys : Apart t root keys) (hkey : key ∈ keys) :
    storage.openFile cwd t key = (content t root key).elim (.error .notFound) .ok := by
  have hway := hkeys.way key hkey
  rw [openFile, h.resolvePath_eq hway, content]
  match hnode : t.node (root ++ names key) with
  | none => rfl
  | some .dir => exact absurd hnode (hkeys.free key hkey)
  | some (.link target) => exact absurd hnode (hway.free _ List.prefix_rfl target)
  | some (.file bytes) =>
    rw [if_neg (by simp)]
    simp [readAt, hnode]

theorem exists_eq (h : storage.Rooted cwd t root) (hkeys : Apart t root keys) (hkey : key ∈ keys) :
    storage.exists_ cwd t key = (content t root key).isSome := by
  have hway := hkeys.way key hkey
  rw [exists_, h.resolvePath_eq hway, content]
  match hnode : t.node (root ++ names key) with
  | none => rfl
  | some .dir => exact absurd hnode (hkeys.free key hkey)
  | some (.link target) => exact absurd hnode (hway.free _ List.prefix_rfl target)
  | some (.file bytes) => rfl

/-! ### Calls -/

variable {t' : Tree}

/-- A save changes its key alone, and to the content that it was given. -/
theorem Rooted.save_spec (h : storage.Rooted cwd t root) (hway : Way t root (names key)) (bytes : List UInt8) :
    Changed t (storage.save cwd t key bytes).1 root (names key) ∧
      ((storage.save cwd t key bytes).2.toBool = true →
        (storage.save cwd t key bytes).1.node (root ++ names key) = some (.file bytes)) ∧
      ((storage.save cwd t key bytes).2.toBool = false →
        (storage.save cwd t key bytes).1.node (root ++ names key) = t.node (root ++ names key)) := by
  have hinit : (names key).dropLast <+: names key := List.dropLast_prefix _
  have hne : (names key).dropLast ≠ names key := by
    intro heq
    have hlength := congrArg List.length heq
    rw [List.length_dropLast] at hlength
    have hpos := List.length_pos_of_ne_nil (names_ne_nil key)
    omega
  obtain ⟨hgrown, -⟩ := h.base.createDirAll_below (hway.of_prefix hinit)
  have hchanged := Changed.of_grown hgrown hinit hne
  have hsame : (createDirAll cwd t storage.root.absolute (storage.root.components ++ (names key).dropLast).reverse).1.node
      (root ++ names key) = t.node (root ++ names key) := by
    by_contra hother
    obtain ⟨above, habove, heq⟩ := hgrown.way _ hother
    obtain rfl := List.append_cancel_left heq
    exact hne (hinit.eq_of_length (Nat.le_antisymm hinit.length_le habove.length_le))
  rw [save, h.parent_target hway]
  dsimp only
  match hcreate : createDirAll cwd t storage.root.absolute (storage.root.components ++ (names key).dropLast).reverse with
  | (t', .error e) =>
    rw [hcreate] at hchanged hsame
    exact ⟨hchanged, fun h => (by cases h), fun _ => hsame⟩
  | (t', .ok ()) =>
    rw [hcreate] at hchanged hsame
    dsimp only at hchanged hsame ⊢
    rw [h.target_eq hway]
    match hwrite : write t' cwd (below storage.root (names key)) bytes with
    | .error e => exact ⟨hchanged, fun h => (by cases h), fun _ => hsame⟩
    | .ok t'' =>
      have hway' := hway.kept hchanged.keeps
      obtain ⟨hput, hdir⟩ := (h.base.kept hchanged.keeps).write_below hway' (names_ne_nil key) hwrite
      refine ⟨hchanged.put hput hway' hdir (by simp) (by simp), fun _ => ?_, fun h => (by cases h)⟩
      dsimp only
      rw [hput, Function.update_self]

/-- A deletion changes its key alone. -/
theorem Rooted.delete_spec (h : storage.Rooted cwd t root) (hway : Way t root (names key)) :
    Changed t (storage.delete cwd t key).1 root (names key) ∧
      ((storage.delete cwd t key).2.toBool = true →
        (storage.delete cwd t key).1.node (root ++ names key) = none) ∧
      ((storage.delete cwd t key).2.toBool = false → (storage.delete cwd t key).1 = t) := by
  rcases List.eq_nil_or_concat (names key) with hnil | ⟨init, last, hnames⟩
  · exact absurd hnil (names_ne_nil key)
  · rw [List.concat_eq_append] at hnames
    rw [hnames] at hway
    obtain ⟨hremoved, habsent⟩ := h.base.removeFile_below hway
    rw [← hnames] at hway
    rw [List.append_assoc, ← hnames] at hremoved habsent
    rw [delete, h.target_eq hway]
    match hremove : removeFile t cwd (below storage.root (names key)) with
    | .ok t' =>
      obtain ⟨hput, hdir⟩ := hremoved t' hremove
      refine ⟨Changed.refl.put hput hway hdir (by simp) (by simp), fun _ => ?_, fun h => (by cases h)⟩
      dsimp only
      rw [hput, Function.update_self]
    | .error .notFound => exact ⟨.refl, fun _ => habsent hremove, fun h => (by cases h)⟩
    | .error .notADirectory | .error .isADirectory | .error .alreadyExists | .error .loop | .error .invalidInput =>
      exact ⟨.refl, fun h => (by cases h), fun _ => rfl⟩

/-- What every call of a run keeps. -/
structure Kept (storage : LocalDiskStorage) (cwd : List Name) (t : Tree) (root : List Name) (keys : Set (List Char))
    (s : Tree × (List Char → Option (List UInt8))) : Prop where
  rooted : storage.Rooted cwd s.1 root
  apart : Apart s.1 root keys
  under : ∀ q, s.1.node q ≠ t.node q → root <+: q
  reads : ∀ key ∈ keys, content s.1 root key = s.2 key

theorem content_congr (h : t'.node (root ++ names key) = t.node (root ++ names key)) :
    content t' root key = content t root key := by rw [content, content, h]

/-- A call changes its key alone, to what its answer says. -/
theorem exec_spec (h : storage.Rooted cwd t root) (call : Call) (hway : Way t root (names call.key)) :
    Changed t (call.exec storage cwd t).1 root (names call.key) ∧ ∀ reads : List Char → Option (List UInt8),
      content t root call.key = reads call.key →
        content (call.exec storage cwd t).1 root call.key = call.remember reads (call.exec storage cwd t).2 call.key := by
  cases call with
  | openFile key | exists_ key => exact ⟨.refl, fun _ hreads => hreads⟩
  | save key bytes =>
    obtain ⟨hchanged, hsaved, hfailed⟩ := h.save_spec hway bytes
    refine ⟨hchanged, fun reads hreads => ?_⟩
    change content (storage.save cwd t key bytes).1 root key =
      (if (storage.save cwd t key bytes).2.toBool then Function.update reads key (some bytes) else reads) key
    cases hok : (storage.save cwd t key bytes).2.toBool with
    | true =>
      rw [if_pos rfl, Function.update_self, content]
      have hnode := hsaved hok
      rw [Call.key] at hnode
      rw [hnode]
    | false => exact (content_congr (hfailed hok)).trans hreads
  | delete key =>
    obtain ⟨hchanged, hdeleted, hfailed⟩ := h.delete_spec hway
    refine ⟨hchanged, fun reads hreads => ?_⟩
    change content (storage.delete cwd t key).1 root key =
      (if (storage.delete cwd t key).2.toBool then Function.update reads key none else reads) key
    cases hok : (storage.delete cwd t key).2.toBool with
    | true =>
      rw [if_pos rfl, Function.update_self, content]
      have hnode := hdeleted hok
      rw [Call.key] at hnode
      rw [hnode]
    | false =>
      have hsame := hfailed hok
      rw [Call.key] at hsame
      rw [hsame]
      exact hreads

theorem remember_other {call : Call} {ok : Bool} {reads : List Char → Option (List UInt8)} (hne : key ≠ call.key) :
    call.remember reads ok key = reads key := by
  cases call with
  | openFile _ | exists_ _ => rfl
  | save _ _ | delete _ =>
    cases ok with
    | true => exact Function.update_of_ne hne _ _
    | false => rfl

theorem Kept.next {s : Tree × (List Char → Option (List UInt8))} (h : Kept storage cwd t root keys s) {call : Call}
    (hcall : call.key ∈ keys) : Kept storage cwd t root keys (call.next storage cwd s) := by
  obtain ⟨hchanged, hreads⟩ := exec_spec h.rooted call (h.apart.way _ hcall)
  refine ⟨h.rooted.kept hchanged.keeps, hchanged.apart h.apart hcall, fun q hq => ?_, fun key hkey => ?_⟩
  · by_cases hstep : (call.exec storage cwd s.1).1.node q = s.1.node q
    · exact h.under q (by rwa [← hstep])
    · exact hchanged.under hstep
  · by_cases hsame : key = call.key
    · subst hsame
      exact hreads s.2 (h.reads _ hcall)
    · exact (content_congr (hchanged.other h.apart hcall hkey hsame)).trans
        ((h.reads key hkey).trans (remember_other hsame).symm)

theorem Kept.run {s : Tree × (List Char → Option (List UInt8))} (h : Kept storage cwd t root keys s) {calls : List Call}
    (hcalls : ∀ call ∈ calls, call.key ∈ keys) :
    Kept storage cwd t root keys (calls.foldl (fun s call => call.next storage cwd s) s) := by
  induction calls generalizing s with
  | nil => exact h
  | cons call calls ih => exact ih (h.next (hcalls call (by simp))) fun c hc => hcalls c (by simp [hc])

/-! ### Serving -/

/-- A key that names a directory of the storage. -/
def NamesDirectory (storage : LocalDiskStorage) (cwd : List Name) (t : Tree) (key : List Char) : Prop :=
  ∃ p, storage.resolvePath cwd t key = some p ∧ t.node p = some .dir

theorem settled_of_resolvePath {p : List Name} (h : storage.resolvePath cwd t key = some p) : Settled t p := by
  rw [resolvePath] at h
  split at h
  · cases h
  · split at h
    · cases h
    · split at h
      · cases h
      · rename_i hcanonical
        split at h
        · cases h
        · split at h
          · cases h
            exact settled_of_canonicalize hcanonical
          · cases h

/-- What exists is opened, unless it is a directory. -/
theorem openFile_of_exists (h : storage.exists_ cwd t key = true) :
    (storage.NamesDirectory cwd t key ∧ storage.openFile cwd t key = .error .isADirectory) ∨
      ¬storage.NamesDirectory cwd t key ∧ ∃ bytes, storage.openFile cwd t key = .ok bytes := by
  obtain ⟨p, hp⟩ := Option.isSome_iff_exists.mp h
  obtain ⟨hnode, hfree⟩ := settled_of_resolvePath hp
  rw [openFile, hp]
  match hat : t.node p with
  | none => exact absurd hat hnode
  | some (.link target) => exact absurd hat (hfree target)
  | some .dir => exact .inl ⟨⟨p, hp, hat⟩, by simp [readAt, hat]⟩
  | some (.file bytes) =>
    refine .inr ⟨?_, bytes, by simp [readAt, hat]⟩
    rintro ⟨p', hp', hdir⟩
    rw [hp, Option.some.injEq] at hp'
    rw [← hp', hat] at hdir
    cases hdir

end LocalDiskStorage

section Serving
variable {message : Error → List Char} {cwd : List Name} {t : Tree} {path : List Char}

/-- The search fails at the first storage that has the path, and only on a directory. -/
theorem find_error_iff (backends : List LocalDiskStorage) :
    (∃ e, find message cwd t path backends = .error e) ↔ ∃ before backend after, backends = before ++ backend :: after ∧
      (∀ b ∈ before, b.exists_ cwd t path = false) ∧ backend.NamesDirectory cwd t path := by
  induction backends with
  | nil => simp [find]
  | cons backend backends ih =>
    rw [find]
    cases hexists : backend.exists_ cwd t path with
    | false =>
      rw [if_neg (by simp), ih]
      constructor
      · rintro ⟨before, b, after, rfl, hbefore, hdir⟩
        refine ⟨backend :: before, b, after, rfl, fun x hx => ?_, hdir⟩
        rcases List.mem_cons.mp hx with rfl | hx
        · exact hexists
        · exact hbefore x hx
      · rintro ⟨before, b, after, heq, hbefore, hdir⟩
        cases before with
        | nil =>
          cases heq
          obtain ⟨p, hp, -⟩ := hdir
          rw [LocalDiskStorage.exists_, hp] at hexists
          cases hexists
        | cons first before =>
          cases heq
          exact ⟨before, b, after, rfl, fun x hx => hbefore x (by simp [hx]), hdir⟩
    | true =>
      rw [if_pos rfl]
      rcases LocalDiskStorage.openFile_of_exists hexists with ⟨hdir, heq⟩ | ⟨hdir, bytes, heq⟩
      · rw [heq]
        exact iff_of_true ⟨_, rfl⟩ ⟨[], backend, backends, rfl, by simp, hdir⟩
      · rw [heq]
        refine iff_of_false (fun h => (by cases h.choose_spec)) ?_
        rintro ⟨before, b, after, heq, hbefore, hnames⟩
        cases before with
        | nil =>
          cases heq
          exact hdir hnames
        | cons first before =>
          cases heq
          rw [hbefore backend (by simp)] at hexists
          cases hexists

end Serving

/-- Keys that stand apart are served as the last answers said, and nothing changes outside of the root. -/
theorem storage_is_a_map {storage : LocalDiskStorage} {cwd : List Name} {t : Tree} {root : List Name}
    {keys : Set (List Char)} (hroot : storage.Rooted cwd t root) (hkeys : Apart t root keys) (calls : List Call)
    (hcalls : ∀ call ∈ calls, call.key ∈ keys) {t' : Tree} {reads : List Char → Option (List UInt8)}
    (hrun : calls.foldl (fun s call => call.next storage cwd s) (t, fun key => (storage.openFile cwd t key).toOption) =
      (t', reads)) :
    (∀ q, t'.node q ≠ t.node q → root <+: q) ∧ ∀ key ∈ keys,
      storage.openFile cwd t' key = (reads key).elim (.error .notFound) .ok ∧
      storage.exists_ cwd t' key = (storage.openFile cwd t' key).toBool ∧
      (∀ bytes, storage.openFile cwd t' key = .ok bytes → t'.node (root ++ names key) = some (.file bytes)) ∧
      ∀ message req params, relPath req params = key →
        serve message cwd t' [storage] req params = served req params (reads key) ∧
        ∀ backends : List LocalDiskStorage, (∀ b ∈ backends, b = storage ∨ ¬b.NamesDirectory cwd t' key) →
          ∃ found, serve message cwd t' backends req params = served req params found := by
  have hstart : LocalDiskStorage.Kept storage cwd t root keys (t, fun key => (storage.openFile cwd t key).toOption) := by
    refine ⟨hroot, hkeys, fun q hq => absurd rfl hq, fun key hkey => ?_⟩
    dsimp only
    rw [LocalDiskStorage.openFile_eq hroot hkeys hkey]
    cases content t root key <;> rfl
  have hkept := hstart.run hcalls
  rw [hrun] at hkept
  obtain ⟨hrooted, hapart, hunder, hreads⟩ := hkept
  refine ⟨hunder, fun key hkey => ?_⟩
  have hopen := LocalDiskStorage.openFile_eq hrooted hapart hkey
  have hexists := LocalDiskStorage.exists_eq hrooted hapart hkey
  rw [hreads key hkey] at hopen hexists
  dsimp only at hopen hexists
  have hdirectory : ¬storage.NamesDirectory cwd t' key := by
    rintro ⟨p, hp, hdir⟩
    rw [hrooted.resolvePath_eq (hapart.way key hkey)] at hp
    split at hp
    · cases hp
    · cases hp
      exact hapart.free key hkey hdir
  refine ⟨hopen, ?_, fun bytes hbytes => ?_, fun message req params hpath => ⟨?_, fun backends hbackends => ?_⟩⟩
  · rw [hexists, hopen]
    cases reads key <;> rfl
  · rw [LocalDiskStorage.openFile_eq hrooted hapart hkey, content] at hbytes
    split at hbytes
    · rename_i hnode
      cases hbytes
      exact hnode
    · cases hbytes
  · rw [serve, hpath, find, hexists, hopen]
    cases reads key <;> rfl
  · rw [serve, hpath]
    match hfind : find message cwd t' key backends with
    | .ok found => exact ⟨found, rfl⟩
    | .error e =>
      obtain ⟨before, backend, after, rfl, -, hnames⟩ := (find_error_iff backends).mp ⟨e, hfind⟩
      rcases hbackends backend (by simp) with rfl | hother
      · exact absurd hnames hdirectory
      · exact absurd hnames hother

/-- A directory with a directory for the files. -/
def ground : Tree where
  node q := if q = [] ∨ q = [['s']] ∨ q = [['s'], ['m']] then some .dir else none
  root := by simp
  parent path name h := by
    have hpath : path ++ [name] = [['s']] ∨ path ++ [name] = [['s'], ['m']] := by
      by_contra hnone
      exact h (if_neg (by simpa using hnone))
    have hinit : path = [] ∨ path = [['s']] := by
      rcases hpath with h | h
      · exact .inl (by simpa using congrArg List.dropLast h)
      · exact .inr (by simpa using congrArg List.dropLast h)
    rcases hinit with rfl | rfl <;> simp

def media : LocalDiskStorage := ⟨.ofText ['/', 's', '/', 'm']⟩

theorem media_rooted : media.Rooted [] ground [['s'], ['m']] := ⟨by rfl, by rfl⟩

theorem media_apart : Apart ground [['s'], ['m']] {['a']} where
  way key hkey := by
    rw [Set.mem_singleton_iff.mp hkey]
    refine ⟨fun name hname => ?_, fun q _ target => ?_⟩
    · rw [List.mem_singleton.mp (show name ∈ [['a']] from hname)]
      exact ⟨by decide, by decide⟩
    · rw [ground]
      dsimp only
      split <;> simp
  free key hkey := by
    rw [Set.mem_singleton_iff.mp hkey]
    decide
  apart key hkey key' hkey' _ := by rw [Set.mem_singleton_iff.mp hkey, Set.mem_singleton_iff.mp hkey']

theorem saved_is_read : media.openFile [] ((Call.save ['a'] [1]).next media [] (ground, fun _ => none)).1 ['a'] = .ok [1] := by
  have hmap := storage_is_a_map media_rooted media_apart [.save ['a'] [1]] (by simp [Call.key]) rfl
  exact (hmap.2 ['a'] rfl).1

/-- A key that climbs is saved outside of the root, and a directory exists but is not served. -/
theorem saved_outside :
    (¬∀ (storage : LocalDiskStorage) (cwd : List Name) (t : Tree) (root : List Name) (call : Call),
      storage.Rooted cwd t root → ∀ q, (call.exec storage cwd t).1.node q ≠ t.node q → root <+: q) ∧
    ¬∀ (storage : LocalDiskStorage) (cwd : List Name) (t : Tree) (root : List Name) (key : List Char),
      storage.Rooted cwd t root → storage.exists_ cwd t key = (storage.openFile cwd t key).toBool := by
  refine ⟨fun hconfined => ?_, fun hexists => ?_⟩
  · have hunder := hconfined media [] ground _ (.save ['.', '.', '/', 'x'] [1]) media_rooted [['s'], ['x']] (by decide)
    revert hunder
    decide
  · have hsame := hexists media [] ground _ ['.'] media_rooted
    revert hsame
    decide

end Djangors.StaticFiles
