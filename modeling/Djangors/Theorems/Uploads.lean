import Djangors.Lib.Except
import Djangors.StaticFiles.Uploads

/-! # Where uploads land, and what is scanned

An upload is saved as one more name below its directory, whose characters are those of the stem that was cleaned and of
the extension that was not. The scanner sends a framed payload, and only one kind of reply is clean. -/

namespace FileTree
namespace Path
variable {dir : List Char} {name : Name}

/-- Slashes at the end of a path name nothing. -/
theorem filter_splitOn_trimEnd (dir : List Char) :
    ((dir.rdropWhile (· = '/')).splitOn '/').filter isPlain = (dir.splitOn '/').filter isPlain := by
  induction dir using List.reverseRecOn with
  | nil => rfl
  | append_singleton dir c ih =>
    by_cases hc : c = '/'
    · subst hc
      rw [List.rdropWhile_concat_pos _ _ _ (by simp), ih, List.splitOn_append_cons_self, List.filter_append]
      simp [isPlain]
    · rw [List.rdropWhile_concat_neg _ _ _ (by simpa using hc)]

theorem head?_splitOn_append (l r : List Char) : ((l ++ '/' :: r).splitOn '/').head? = (l.splitOn '/').head? := by
  rw [List.splitOn_append_cons_self, List.head?_append_of_ne_nil _ (List.splitOn_ne_nil _ _)]

theorem head?_splitOn_trimEnd (dir : List Char) : ((dir.rdropWhile (· = '/')).splitOn '/').head? = (dir.splitOn '/').head? := by
  induction dir using List.reverseRecOn with
  | nil => rfl
  | append_singleton dir c ih =>
    by_cases hc : c = '/'
    · subst hc
      rw [List.rdropWhile_concat_pos _ _ _ (by simp), ih, head?_splitOn_append]
    · rw [List.rdropWhile_concat_neg _ _ _ (by simpa using hc)]

/-- A name behind a directory is its last component. -/
theorem components_child (hdir : dir ≠ []) (hslash : '/' ∉ name) (hname : isPlain name = true) :
    (ofText (dir.rdropWhile (· = '/') ++ '/' :: name)).absolute = (ofText dir).absolute ∧
      (ofText (dir.rdropWhile (· = '/') ++ '/' :: name)).components = (ofText dir).components ++ [name] := by
  have habsolute : (ofText (dir.rdropWhile (· = '/') ++ '/' :: name)).absolute = (ofText dir).absolute := by
    cases htrim : dir.rdropWhile (· = '/') with
    | nil =>
      have hall := List.rdropWhile_eq_nil_iff.mp htrim
      cases dir with
      | nil => exact absurd rfl hdir
      | cons c rest =>
        have hc : c = '/' := by simpa using hall c List.mem_cons_self
        simp [ofText, hc]
    | cons c rest =>
      obtain ⟨tail, htail⟩ := List.rdropWhile_prefix (fun c => decide (c = '/')) dir
      rw [htrim] at htail
      rw [← htail]
      rfl
  refine ⟨habsolute, ?_⟩
  have hplain : (ofText (dir.rdropWhile (· = '/') ++ '/' :: name)).segments.filter isPlain =
      (ofText dir).segments.filter isPlain ++ [name] := by
    simp only [ofText]
    rw [List.splitOn_append_cons_self, List.filter_append, filter_splitOn_trimEnd, List.splitOn_eq_singleton hslash,
      List.filter_cons_of_pos hname, List.filter_nil]
  have hhead : (ofText (dir.rdropWhile (· = '/') ++ '/' :: name)).segments.head? = (ofText dir).segments.head? :=
    (head?_splitOn_append _ _).trans (head?_splitOn_trimEnd dir)
  rw [components, components, habsolute, hplain, hhead]
  split <;> rfl

theorem components_single (hslash : '/' ∉ name) (hname : isPlain name = true) :
    (ofText name).components = [name] := by
  have hdot : name ≠ ['.'] := by
    rintro rfl
    simp [isPlain] at hname
  rw [components, ofText, List.splitOn_eq_singleton hslash]
  simp [hdot, hname]

theorem notMem_of_mem_components {path : List Char} (h : name ∈ (ofText path).components) : '/' ∉ name := by
  rw [components] at h
  split at h
  · rcases List.mem_cons.mp h with rfl | h
    · decide
    · exact Path.notMem_of_mem_splitOn (List.mem_filter.mp h).1
  · exact Path.notMem_of_mem_splitOn (List.mem_filter.mp h).1

theorem fileName_eq_some {path : Path} (h : path.fileName = some name) :
    path.components.getLast? = some name := by
  rw [fileName] at h
  split at h
  · split at h
    · cases h
    · cases h
      assumption
  · cases h

end Path

section Dots
variable {name stem e : Name}

/-- The extension stands behind the last dot. -/
theorem splitAtDot_some (h : splitAtDot name = (stem, some e)) : name = stem ++ '.' :: e ∧ '.' ∉ e := by
  rw [splitAtDot] at h
  split at h
  · cases h
  · rename_i hne
    cases h
    have hsome : name.rdropWhile (· ≠ '.') ≠ [] := fun hnil => hne (by rw [hnil]; rfl)
    have hlast := List.rdropWhile_last_not _ name hsome
    have hdot : (name.rdropWhile (· ≠ '.')).getLast hsome = '.' := by simpa using hlast
    refine ⟨?_, fun hmem => by simpa using List.mem_rtakeWhile_imp hmem⟩
    calc
      name = name.rdropWhile (· ≠ '.') ++ name.rtakeWhile (· ≠ '.') := List.rdropWhile_append_rtakeWhile.symm
      _ = (name.rdropWhile (· ≠ '.')).dropLast ++ ['.'] ++ name.rtakeWhile (· ≠ '.') := by
        rw [List.dropLast_append_getLast? _ ((List.getLast?_eq_some_getLast hsome).trans (congrArg some hdot))]
      _ = _ := by simp

theorem rdropWhile_dot (h : '.' ∉ e) (stem : Name) :
    (stem ++ '.' :: e).rdropWhile (fun c => decide (c ≠ '.')) = stem ++ ['.'] := by
  induction e using List.reverseRecOn with
  | nil => exact List.rdropWhile_concat_neg _ _ _ (by simp)
  | append_singleton e c ih =>
    rw [List.mem_append, List.mem_singleton, not_or] at h
    rw [← List.cons_append, ← List.append_assoc, List.rdropWhile_concat_pos _ _ _ (by simpa using Ne.symm h.2), ih h.1]

/-- What stands around the last dot. -/
theorem eq_of_last_dot {stem' e' : Name} (h : '.' ∉ e) (h' : '.' ∉ e') (heq : stem ++ '.' :: e = stem' ++ '.' :: e') :
    stem = stem' ∧ e = e' := by
  have hcut := congrArg (List.rdropWhile (fun c => decide (c ≠ '.'))) heq
  rw [rdropWhile_dot h, rdropWhile_dot h'] at hcut
  obtain rfl := List.append_cancel_right hcut
  exact ⟨rfl, (List.cons.inj (List.append_cancel_left heq)).2⟩

/-- Without an extension no dot stands behind the first character. -/
theorem splitAtDot_none (h : splitAtDot name = (stem, none)) : stem = name ∧ '.' ∉ name.tail := by
  rw [splitAtDot] at h
  split at h
  · rename_i hnil
    cases h
    refine ⟨rfl, fun hmem => ?_⟩
    rw [← List.rdropWhile_append_rtakeWhile (p := fun c => decide (c ≠ '.')) (l := name)] at hmem
    have hrest : '.' ∉ name.rtakeWhile (fun c => decide (c ≠ '.')) := fun hin => by
      simpa using List.mem_rtakeWhile_imp hin
    cases hfront : name.rdropWhile (fun c => decide (c ≠ '.')) with
    | nil =>
      rw [hfront, List.nil_append] at hmem
      exact hrest (List.mem_of_mem_tail hmem)
    | cons c front =>
      rw [hfront] at hnil hmem
      cases front with
      | nil => exact hrest hmem
      | cons d front => cases hnil
  · cases h

end Dots
end FileTree

namespace Djangors.StaticFiles
open FileTree

/-! ### Hashes -/

section Hash
variable (bytes : List UInt8)

theorem length_bigEndian (n x : Nat) : (Sha256.bigEndian n x).length = n := by
  induction n generalizing x with
  | zero => rfl
  | succ n ih => rw [Sha256.bigEndian, List.length_append, ih, List.length_singleton]

theorem length_sha256 : (Sha256.sha256 bytes).length = 32 := by
  simp [Sha256.sha256, length_bigEndian]

theorem length_lowerHex : (lowerHex bytes).length = 2 * bytes.length := by
  induction bytes with
  | nil => rfl
  | cons b bytes ih =>
    rw [lowerHex, List.flatMap_cons, List.length_append, List.length_cons]
    rw [lowerHex] at ih
    simp only [List.length_cons, List.length_nil]
    omega

theorem length_shortHash : (shortHash bytes).length = 12 := by
  rw [shortHash, List.length_take, length_lowerHex, length_sha256]
  rfl

theorem digitChar_plain : ∀ n < 16, (Nat.digitChar n).isAlphanum = true ∧ (Nat.digitChar n).toNat < 128 := by decide

theorem mem_shortHash {c : Char} (h : c ∈ shortHash bytes) : c.isAlphanum = true ∧ c.toNat < 128 := by
  obtain ⟨b, -, hc⟩ := List.mem_flatMap.mp (List.mem_of_mem_take h)
  have hb := b.toNat_lt
  simp only [List.mem_cons, List.not_mem_nil, or_false] at hc
  rcases hc with rfl | rfl
  · exact digitChar_plain _ (by omega)
  · exact digitChar_plain _ (by omega)

end Hash

/-! ### Stored names -/

/-- The extension of a file name that a client gives. -/
def extensionOf (fileName : List Char) : Option Name := (Path.ofText fileName).fileName.bind fun name => (splitAtDot name).2

section Names
variable {alphanumeric : Alphanumeric} {fileName : List Char} {bytes : List UInt8}

theorem isSafe_ascii {c : Char} (h : c.toNat < 128) :
    isSafe alphanumeric c = (c.isAlphanum || c == '-' || c == '_' || c == '.') := by
  rw [isSafe, alphanumeric.ascii c h]

theorem isSafe_of_mem_shortHash {c : Char} (h : c ∈ shortHash bytes) : isSafe alphanumeric c = true := by
  obtain ⟨hplain, hascii⟩ := mem_shortHash bytes h
  rw [isSafe_ascii hascii, hplain]
  rfl

theorem safeStem_safe {stem : Name} {c : Char} (h : c ∈ safeStem alphanumeric stem) : isSafe alphanumeric c = true := by
  rw [safeStem] at h
  split at h
  · have hupload : "upload".toList.all (fun c => decide (c.toNat < 128) && c.isAlphanum) = true := by decide
    have hc := List.all_eq_true.mp hupload c h
    rw [Bool.and_eq_true, decide_eq_true_eq] at hc
    obtain ⟨hascii, hplain⟩ := hc
    rw [isSafe_ascii hascii, hplain]
    rfl
  · exact (List.mem_filter.mp h).2

theorem safeStem_ne_nil (stem : Name) : safeStem alphanumeric stem ≠ [] := by
  rw [safeStem]
  split
  · decide
  · assumption

/-- What is kept of a text that has been kept already. -/
theorem safeStem_eq_self {stem : Name} (h : ∀ c ∈ stem, isSafe alphanumeric c = true) (hne : stem ≠ []) :
    safeStem alphanumeric stem = stem := by
  rw [safeStem, List.filter_eq_self.mpr h, if_neg hne]

theorem safeStem_dots {stem : Name} (h : '.' ∉ stem.tail) : '.' ∉ (safeStem alphanumeric stem).tail := by
  rw [safeStem]
  split
  · decide
  · cases stem with
    | nil => exact h
    | cons c stem =>
      have hfilter : '.' ∉ stem.filter (isSafe alphanumeric) := fun hmem => h (List.mem_filter.mp hmem).1
      rw [List.filter_cons]
      split
      · exact hfilter
      · exact fun hmem => hfilter (List.mem_of_mem_tail hmem)

/-- A stored name: the stem that was cleaned, the hash, and the extension as it was. -/
theorem generateStoragePath_parts (alphanumeric : Alphanumeric) (fileName : List Char) (bytes : List UInt8) :
    ∃ stem ext, generateStoragePath alphanumeric fileName bytes =
        safeStem alphanumeric stem ++ '_' :: shortHash bytes ++ ext ∧
      ((extensionOf fileName = none ∧ ext = [] ∧ '.' ∉ stem.tail) ∨
        ∃ e, extensionOf fileName = some e ∧ ext = '.' :: e ∧ '.' ∉ e ∧ '/' ∉ e) ∧
      ∀ name, (Path.ofText fileName).fileName = some name → name = stem ++ ext := by
  rw [generateStoragePath, extensionOf]
  cases hname : (Path.ofText fileName).fileName with
  | none => exact ⟨_, _, rfl, .inl ⟨rfl, rfl, by decide⟩, nofun⟩
  | some name =>
    rcases hsplit : splitAtDot name with ⟨stem, _ | e⟩
    · obtain ⟨rfl, hdots⟩ := splitAtDot_none hsplit
      refine ⟨stem, [], by simp [hsplit], .inl ⟨by simp [hsplit], rfl, hdots⟩, ?_⟩
      rintro _ ⟨rfl⟩
      exact (List.append_nil _).symm
    · obtain ⟨heq, hdots⟩ := splitAtDot_some hsplit
      refine ⟨stem, '.' :: e, by simp [hsplit], .inr ⟨e, by simp [hsplit], rfl, hdots, fun hslash => ?_⟩, ?_⟩
      · have hmem := List.mem_of_getLast? (Path.fileName_eq_some hname)
        refine Path.notMem_of_mem_components hmem ?_
        rw [heq]
        simp [hslash]
      · rintro _ ⟨rfl⟩
        exact heq

theorem slash_notMem (alphanumeric : Alphanumeric) (fileName : List Char) (bytes : List UInt8) :
    '/' ∉ generateStoragePath alphanumeric fileName bytes := by
  obtain ⟨stem, ext, heq, hext, -⟩ := generateStoragePath_parts alphanumeric fileName bytes
  have hunsafe : isSafe alphanumeric '/' = false := by
    rw [isSafe_ascii (by decide)]
    decide
  rw [heq]
  simp only [List.mem_append, List.mem_cons, not_or]
  refine ⟨⟨fun h => ?_, by decide, fun h => ?_⟩, ?_⟩
  · rw [safeStem_safe h] at hunsafe
    cases hunsafe
  · rw [isSafe_of_mem_shortHash h] at hunsafe
    cases hunsafe
  · rcases hext with ⟨-, rfl, -⟩ | ⟨e, -, rfl, -, hslash⟩
    · exact List.not_mem_nil
    · exact List.not_mem_cons_of_ne_of_not_mem (by decide) hslash

theorem underscore_mem (alphanumeric : Alphanumeric) (fileName : List Char) (bytes : List UInt8) :
    '_' ∈ generateStoragePath alphanumeric fileName bytes := by
  obtain ⟨stem, ext, heq, -, -⟩ := generateStoragePath_parts alphanumeric fileName bytes
  rw [heq]
  simp

theorem ne_of_underscore {name : Name} (h : '_' ∉ name) : generateStoragePath alphanumeric fileName bytes ≠ name := by
  rintro rfl
  exact h (underscore_mem ..)

/-- A stored name is longer than the name it comes from where that was clean, so that it is no name that comes from itself. -/
theorem generateStoragePath_ne : generateStoragePath alphanumeric fileName bytes ≠ fileName := by
  intro hself
  obtain ⟨stem, ext, heq, -, hname⟩ := generateStoragePath_parts alphanumeric fileName bytes
  have hcomponents : (Path.ofText fileName).components = [fileName] := by
    rw [← hself]
    exact Path.components_single (slash_notMem _ _ _)
      (decide_eq_true ⟨ne_of_underscore (by decide), ne_of_underscore (by decide)⟩)
  have hfile : (Path.ofText fileName).fileName = some fileName := by
    rw [Path.fileName, hcomponents, List.getLast?_singleton]
    dsimp only
    rw [if_neg]
    rw [← hself]
    exact not_or.mpr ⟨ne_of_underscore (by decide), ne_of_underscore (by decide)⟩
  have hstem : stem = safeStem alphanumeric stem ++ '_' :: shortHash bytes := by
    have hboth := (hname _ hfile).symm.trans (hself.symm.trans heq)
    exact List.append_cancel_right hboth
  have hsafe : safeStem alphanumeric stem = stem := by
    refine safeStem_eq_self (fun c hc => ?_) (by rw [hstem]; simp)
    rw [hstem, List.mem_append, List.mem_cons] at hc
    rcases hc with hc | rfl | hc
    · exact safeStem_safe hc
    · rw [isSafe_ascii (by decide)]
      decide
    · exact isSafe_of_mem_shortHash hc
  have hlength := congrArg List.length hstem
  rw [hsafe, List.length_append, List.length_cons] at hlength
  omega

/-- All of a stored name is plain where the extension is. -/
theorem safe_iff : (∀ c ∈ generateStoragePath alphanumeric fileName bytes, isSafe alphanumeric c = true) ↔
    ∀ e, extensionOf fileName = some e → ∀ c ∈ e, isSafe alphanumeric c = true := by
  obtain ⟨stem, ext, heq, hext, -⟩ := generateStoragePath_parts alphanumeric fileName bytes
  have hplain : ∀ c : Char, c = '_' ∨ c = '.' → isSafe alphanumeric c = true := by
    rintro c (rfl | rfl) <;> rw [isSafe_ascii (by decide)] <;> decide
  rw [heq]
  constructor
  · intro h e he c hc
    rcases hext with ⟨hnone, -, -⟩ | ⟨e', hsome, rfl, -, -⟩
    · rw [hnone] at he
      cases he
    · rw [hsome, Option.some_inj] at he
      subst he
      exact h c (by simp [hc])
  · intro h c hc
    rw [List.mem_append, List.mem_append, List.mem_cons] at hc
    rcases hc with (hc | rfl | hc) | hc
    · exact safeStem_safe hc
    · exact hplain _ (.inl rfl)
    · exact isSafe_of_mem_shortHash hc
    · rcases hext with ⟨-, rfl, -⟩ | ⟨e, hsome, rfl, -, -⟩
      · cases hc
      · rcases List.mem_cons.mp hc with rfl | hc
        · exact hplain _ (.inr rfl)
        · exact h e hsome c hc

theorem dot_notMem_shortHash (bytes : List UInt8) : '.' ∉ shortHash bytes := fun h => by
  have hplain := (mem_shortHash bytes h).1
  revert hplain
  decide

/-- The hash stands at a place of its own. -/
theorem shortHash_of_eq {fileName' : List Char} {bytes' : List UInt8}
    (h : generateStoragePath alphanumeric fileName bytes = generateStoragePath alphanumeric fileName' bytes') :
    shortHash bytes = shortHash bytes' := by
  obtain ⟨stem, ext, heq, hext, -⟩ := generateStoragePath_parts alphanumeric fileName bytes
  obtain ⟨stem', ext', heq', hext', -⟩ := generateStoragePath_parts alphanumeric fileName' bytes'
  rw [heq, heq'] at h
  -- Behind its first character a name has a dot exactly when it has an extension.
  have bare : ∀ {stem : Name} {bytes : List UInt8}, '.' ∉ stem.tail →
      '.' ∉ (safeStem alphanumeric stem ++ '_' :: shortHash bytes).tail := by
    intro stem bytes hdots
    rw [List.tail_append_of_ne_nil (safeStem_ne_nil stem), List.mem_append, List.mem_cons, not_or, not_or]
    exact ⟨safeStem_dots hdots, by decide, dot_notMem_shortHash bytes⟩
  have dotted : ∀ {stem e : Name} {bytes : List UInt8},
      '.' ∈ (safeStem alphanumeric stem ++ '_' :: shortHash bytes ++ '.' :: e).tail := by
    intro stem e bytes
    rw [List.append_assoc, List.tail_append_of_ne_nil (safeStem_ne_nil stem)]
    simp
  have hsame : (safeStem alphanumeric stem ++ '_' :: shortHash bytes) =
      (safeStem alphanumeric stem' ++ '_' :: shortHash bytes') := by
    rcases hext with ⟨-, rfl, hdots⟩ | ⟨e, -, rfl, hdots, -⟩
    · rcases hext' with ⟨-, rfl, -⟩ | ⟨e', -, rfl, -, -⟩
      · rwa [List.append_nil, List.append_nil] at h
      · rw [List.append_nil] at h
        have hdot : '.' ∈ (safeStem alphanumeric stem ++ '_' :: shortHash bytes).tail := by
          rw [h]
          exact dotted
        exact absurd hdot (bare hdots)
    · rcases hext' with ⟨-, rfl, hdots'⟩ | ⟨e', -, rfl, hdots', -⟩
      · rw [List.append_nil] at h
        have hdot : '.' ∈ (safeStem alphanumeric stem' ++ '_' :: shortHash bytes').tail := by
          rw [← h]
          exact dotted
        exact absurd hdot (bare hdots')
      · exact (eq_of_last_dot hdots hdots' h).1
  have hlast := List.append_inj_right' hsame (by simp [length_shortHash])
  exact (List.cons.inj hlast).2

end Names

/-! ### Paths -/

section Paths
variable {alphanumeric : Alphanumeric} {file : UploadedFile} {destDir : List Char}

def storedName (alphanumeric : Alphanumeric) (file : UploadedFile) : List Char :=
  generateStoragePath alphanumeric file.fileName file.bytes

/-- The path of an upload is one name below its directory. -/
theorem fullPath_below (alphanumeric : Alphanumeric) (file : UploadedFile) (destDir : List Char) :
    (Path.ofText (fullPath alphanumeric file destDir)).absolute = (Path.ofText destDir).absolute ∧
    (Path.ofText (fullPath alphanumeric file destDir)).components =
      (Path.ofText destDir).components ++ [storedName alphanumeric file] := by
  have hslash : '/' ∉ storedName alphanumeric file := slash_notMem _ _ _
  have hplain : Path.isPlain (storedName alphanumeric file) = true :=
    decide_eq_true ⟨ne_of_underscore (by decide), ne_of_underscore (by decide)⟩
  by_cases hdir : destDir = []
  · have hpath : fullPath alphanumeric file destDir = storedName alphanumeric file := if_pos hdir
    rw [hpath, Path.components_single hslash hplain, hdir]
    refine ⟨?_, rfl⟩
    have hnone : ([] : List Char).head? ≠ some '/' := by decide
    exact decide_eq_decide.mpr (iff_of_false (fun hhead => hslash (List.mem_of_head? hhead)) hnone)
  · have hpath : fullPath alphanumeric file destDir =
        destDir.rdropWhile (· = '/') ++ '/' :: storedName alphanumeric file := if_neg hdir
    rw [hpath]
    exact Path.components_child hdir hslash hplain

/-- A path one name below a directory: a plain name that the client did not give. -/
structure LandsWell (alphanumeric : Alphanumeric) (file : UploadedFile) (destDir path : List Char) (name : Name) : Prop where
  absolute : (Path.ofText path).absolute = (Path.ofText destDir).absolute
  below : (Path.ofText path).components = (Path.ofText destDir).components ++ [name]
  plain : ∀ c ∈ name, alphanumeric.is c = true ∨ c = '-' ∨ c = '_' ∨ c = '.'
  noDot : name ≠ ['.'] ∧ name ≠ ['.', '.']
  other : name ≠ file.fileName

theorem isSafe_iff {c : Char} : isSafe alphanumeric c = true ↔ alphanumeric.is c = true ∨ c = '-' ∨ c = '_' ∨ c = '.' := by
  simp only [isSafe, Bool.or_eq_true, beq_iff_eq, or_assoc]

theorem dot_notMem_extensionOf {fileName : List Char} {e : Name} (h : extensionOf fileName = some e) : '.' ∉ e := by
  obtain ⟨name, -, he⟩ := Option.bind_eq_some_iff.mp h
  exact (splitAtDot_some (Prod.ext rfl he)).2

theorem exists_landsWell_iff : (∃ name, LandsWell alphanumeric file destDir (fullPath alphanumeric file destDir) name) ↔
    ∀ e, extensionOf file.fileName = some e → ∀ c ∈ e, alphanumeric.is c = true ∨ c = '-' ∨ c = '_' := by
  obtain ⟨habsolute, hbelow⟩ := fullPath_below alphanumeric file destDir
  constructor
  · rintro ⟨name, h⟩ e he c hc
    have hname : name = storedName alphanumeric file := by
      simpa using h.below.symm.trans hbelow
    have hsafe := (safe_iff.mp fun c hc => isSafe_iff.mpr (h.plain c (hname ▸ hc))) e he c hc
    rcases isSafe_iff.mp hsafe with h | h | h | rfl
    · exact .inl h
    · exact .inr (.inl h)
    · exact .inr (.inr h)
    · exact absurd hc (dot_notMem_extensionOf he)
  · intro h
    have hsafe : ∀ c ∈ storedName alphanumeric file, isSafe alphanumeric c = true := safe_iff.mpr fun e he c hc => by
      rcases h e he c hc with h | h | h
      · exact isSafe_iff.mpr (.inl h)
      · exact isSafe_iff.mpr (.inr (.inl h))
      · exact isSafe_iff.mpr (.inr (.inr (.inl h)))
    exact ⟨_, habsolute, hbelow, fun c hc => isSafe_iff.mp (hsafe c hc),
      ⟨ne_of_underscore (by decide), ne_of_underscore (by decide)⟩, generateStoragePath_ne⟩

end Paths

/-- The extension is the only part of a stored name that may hold any character. -/
theorem upload_lands {σ ε : Type} (alphanumeric : Alphanumeric) (storage : Storage σ ε) (s : σ) (file : UploadedFile)
    (destDir : List Char) :
    saveUpload alphanumeric storage s file destDir = storage.save s (fullPath alphanumeric file destDir) file.bytes ∧
    ((∃ name, LandsWell alphanumeric file destDir (fullPath alphanumeric file destDir) name) ↔
      ∀ e, extensionOf file.fileName = some e → ∀ c ∈ e, alphanumeric.is c = true ∨ c = '-' ∨ c = '_') ∧
    ∀ file' destDir', (file.bytes ≠ file'.bytes → shortHash file.bytes ≠ shortHash file'.bytes) →
      (Path.ofText (fullPath alphanumeric file destDir)).components =
        (Path.ofText (fullPath alphanumeric file' destDir')).components → file.bytes = file'.bytes := by
  refine ⟨rfl, exists_landsWell_iff, fun file' destDir' hdistinct hpath => ?_⟩
  by_contra hne
  rw [(fullPath_below _ _ _).2, (fullPath_below _ _ _).2] at hpath
  have hname : storedName alphanumeric file = storedName alphanumeric file' := by
    have hlast := List.append_inj_right' hpath rfl
    exact (List.cons.inj hlast).1
  exact hdistinct hne (shortHash_of_eq hname)

def ascii : Alphanumeric := ⟨Char.isAlphanum, fun _ _ => rfl⟩

/-- An extension with a space and a backslash is stored as it is. -/
theorem extension_kept : ¬∃ name, LandsWell ascii ⟨"report.p\\ df".toList, [1]⟩ "docs".toList
    (fullPath ascii ⟨"report.p\\ df".toList, [1]⟩ "docs".toList) name := by
  intro h
  have hspace := exists_landsWell_iff.mp h "p\\ df".toList (by decide) ' ' (by decide)
  revert hspace
  decide

/-! ### Scanning -/

/-- The chunks of a whole `INSTREAM` request: nothing stands behind the chunk that ends it. -/
def instream (bs : List UInt8) : Option (List (List UInt8)) :=
  if command.isPrefixOf bs then
    match Frames.read (bs.drop command.length) with
    | some (chunks, []) => some chunks
    | _ => none
  else none

def request (chunkSize : Nat) (data : List UInt8) : List UInt8 :=
  command ++ ((Frames.chunks (max chunkSize 1) data).flatMap Frames.frame ++ (Frames.bigEndian 0 ++ []))

section Send
variable {ε : Type} {stream : Stream ε} {sent sent' : List UInt8} {data : List UInt8} {chunkSize : Nat}

theorem Stream.writeAll_eq_ok {bytes : List UInt8} (h : stream.writeAll sent bytes = .ok sent') : sent' = sent ++ bytes := by
  rw [Stream.writeAll] at h
  split at h
  · cases h
    rfl
  · cases h

theorem Stream.writeAll_open (hopen : ∀ sent bytes, stream.write sent bytes = .ok ()) (sent bytes : List UInt8) :
    stream.writeAll sent bytes = .ok (sent ++ bytes) := by rw [Stream.writeAll, hopen]

/-- What the loop over the chunks has sent when no write fails. -/
theorem sendChunks_eq_ok {chunks : List (List UInt8)}
    (h : chunks.foldlM (fun sent chunk => do
      let sent ← stream.writeAll sent (Frames.bigEndian (UInt32.ofNat chunk.length))
      stream.writeAll sent chunk) sent = .ok sent') : sent' = sent ++ chunks.flatMap Frames.frame := by
  induction chunks generalizing sent with
  | nil =>
    cases h
    exact (List.append_nil _).symm
  | cons chunk chunks ih =>
    rw [List.foldlM_cons] at h
    obtain ⟨framed, hframed, hrest⟩ := Except.bind_eq_ok.mp h
    obtain ⟨lengthSent, hlength, hchunk⟩ := Except.bind_eq_ok.mp hframed
    rw [ih hrest, Stream.writeAll_eq_ok hchunk, Stream.writeAll_eq_ok hlength, List.flatMap_cons, Frames.frame]
    simp only [List.append_assoc]

theorem sendChunks_open (hopen : ∀ sent bytes, stream.write sent bytes = .ok ()) (chunks : List (List UInt8))
    (sent : List UInt8) : ∃ sent', chunks.foldlM (fun sent chunk => do
      let sent ← stream.writeAll sent (Frames.bigEndian (UInt32.ofNat chunk.length))
      stream.writeAll sent chunk) sent = .ok sent' := by
  induction chunks generalizing sent with
  | nil => exact ⟨sent, rfl⟩
  | cons chunk chunks ih =>
    obtain ⟨sent', hrest⟩ := ih (sent ++ Frames.bigEndian (UInt32.ofNat chunk.length) ++ chunk)
    refine ⟨sent', ?_⟩
    rw [List.foldlM_cons]
    refine Except.bind_eq_ok.mpr ⟨_, Except.bind_eq_ok.mpr ⟨_, Stream.writeAll_open hopen _ _, ?_⟩, hrest⟩
    exact Stream.writeAll_open hopen _ _

theorem send_eq_ok (h : send chunkSize stream data = .ok sent) : sent = request chunkSize data := by
  obtain ⟨first, hfirst, hrest⟩ := Except.bind_eq_ok.mp h
  obtain ⟨framed, hframed, hend⟩ := Except.bind_eq_ok.mp hrest
  rw [Stream.writeAll_eq_ok hend, sendChunks_eq_ok hframed, Stream.writeAll_eq_ok hfirst, request]
  simp only [List.append_assoc, List.nil_append, List.append_nil]

theorem send_open (hopen : ∀ sent bytes, stream.write sent bytes = .ok ()) :
    send chunkSize stream data = .ok (request chunkSize data) := by
  obtain ⟨framed, hframed⟩ := sendChunks_open hopen (Frames.chunks (max chunkSize 1) data) ([] ++ command)
  have hsend : send chunkSize stream data = .ok (framed ++ Frames.bigEndian 0) := by
    refine Except.bind_eq_ok.mpr ⟨_, Stream.writeAll_open hopen [] command, ?_⟩
    exact Except.bind_eq_ok.mpr ⟨framed, hframed, Stream.writeAll_open hopen _ _⟩
  rw [hsend, send_eq_ok hsend]

theorem instream_request (hpos : 0 < chunkSize) (hlt : chunkSize < 4294967296) :
    instream (request chunkSize data) = some (Frames.chunks chunkSize data) := by
  have hmax : max chunkSize 1 = chunkSize := by omega
  have hread := Frames.read_frames (l := Frames.chunks chunkSize data) (fun chunk hchunk => by
    obtain ⟨hne, hle⟩ := Frames.length_of_mem_chunks hchunk
    exact ⟨hne, by omega⟩) []
  rw [instream, request, hmax, if_pos (List.isPrefixOf_iff_prefix.mpr (List.prefix_append _ _)), List.drop_left, hread]

end Send

/-! ### Replies -/

section Reply
open Text

def Blank (text : List Char) : Prop := ∀ c ∈ text, isWhitespace c = true

/-- A trimmed text between the blanks it has lost. -/
theorem trim_parts (text : List Char) : ∃ before after, Blank before ∧ Blank after ∧ text = before ++ trim text ++ after := by
  refine ⟨text.takeWhile isWhitespace, (text.dropWhile isWhitespace).rtakeWhile isWhitespace, fun c hc => ?_, fun c hc => ?_, ?_⟩
  · exact List.mem_takeWhile_imp hc
  · exact List.mem_rtakeWhile_imp hc
  · rw [trim, List.append_assoc, List.rdropWhile_append_rtakeWhile, List.takeWhile_append_dropWhile]

theorem trim_before {before : List Char} (h : Blank before) (text : List Char) : trim (before ++ text) = trim text := by
  induction before with
  | nil => rfl
  | cons c before ih => rw [List.cons_append, trim_cons (h c (by simp)), ih fun d hd => h d (by simp [hd])]

theorem trim_after {after : List Char} (h : Blank after) (text : List Char) : trim (text ++ after) = trim text := by
  induction after using List.reverseRecOn with
  | nil => rw [List.append_nil]
  | append_singleton after c ih =>
    rw [← List.append_assoc, trim_concat (h c (by simp)), ih fun d hd => h d (by simp [hd])]

/-- The text of a clean reply: `stream:` and `OK`, between blanks and before NULs. -/
def cleanText (before between after : List Char) (nuls : Nat) : List Char :=
  before ++ ("stream:".toList ++ (between ++ "OK".toList)) ++ after ++ List.replicate nuls '\x00'

/-- The bytes of a clean reply. -/
def IsClean (raw : List UInt8) : Prop := ∃ before between after nuls, Blank before ∧ Blank between ∧ Blank after ∧
  raw = bytes (String.ofList (cleanText before between after nuls))

theorem rdropWhile_nuls (text : List Char) : ∃ n, text = text.rdropWhile (· = '\x00') ++ List.replicate n '\x00' := by
  induction text using List.reverseRecOn with
  | nil => exact ⟨0, rfl⟩
  | append_singleton text c ih =>
    by_cases hc : c = '\x00'
    · obtain ⟨n, hn⟩ := ih
      refine ⟨n + 1, ?_⟩
      rw [List.rdropWhile_concat_pos _ _ _ (by simpa using hc), List.replicate_succ', ← List.append_assoc, ← hn, hc]
    · exact ⟨0, by rw [List.rdropWhile_concat_neg _ _ _ (by simpa using hc)]; simp⟩

theorem rdropWhile_append_nuls {text : List Char} (h : '\x00' ∉ text) (n : Nat) :
    (text ++ List.replicate n '\x00').rdropWhile (· = '\x00') = text := by
  induction n with
  | zero =>
    rw [List.replicate_zero, List.append_nil, List.rdropWhile_eq_self_iff]
    intro hne
    rw [decide_eq_true_eq]
    exact fun heq => h (heq ▸ List.getLast_mem hne)
  | succ n ih =>
    rw [List.replicate_succ', ← List.append_assoc, List.rdropWhile_concat_pos _ _ _ (by simp), ih]

variable {ε : Type} {lossy : Urlencoded.Lossy} {raw : List UInt8}

/-- What a reply that is found clean decodes to. -/
theorem cleanText_of_parseResponse (h : (parseResponse lossy raw : Except (ClamAvError ε) ScanResult) = .ok .clean) :
    ∃ before between after nuls, Blank before ∧ Blank between ∧ Blank after ∧
      lossy.decode raw = cleanText before between after nuls := by
  obtain ⟨nuls, hnuls⟩ := rdropWhile_nuls (lossy.decode raw)
  obtain ⟨before, after, hbefore, hafter, htext⟩ := trim_parts ((lossy.decode raw).rdropWhile (· = '\x00'))
  rw [parseResponse] at h
  generalize trim ((lossy.decode raw).rdropWhile (· = '\x00')) = text at htext h
  dsimp only at h
  split at h
  · rename_i hstream
    obtain ⟨rest, rfl⟩ := List.isPrefixOf_iff_prefix.mp hstream
    have hdrop : ("stream:".toList ++ rest).drop "stream:".length = rest := List.drop_left
    rw [hdrop] at h
    split at h
    · rename_i hok
      obtain ⟨between, after', hbetween, hafter', hrest⟩ := trim_parts rest
      rw [hok] at hrest
      refine ⟨before, between, after' ++ after, nuls, hbefore, hbetween, fun c hc => ?_, ?_⟩
      · exact (List.mem_append.mp hc).elim (hafter' c) (hafter c)
      · rw [hnuls, htext, hrest, cleanText]
        simp only [List.append_assoc]
    · split at h <;> cases h
  · cases h

theorem parseResponse_cleanText {before between after : List Char} {nuls : Nat} (hbefore : Blank before)
    (hbetween : Blank between) (hafter : Blank after) (h : lossy.decode raw = cleanText before between after nuls) :
    (parseResponse lossy raw : Except (ClamAvError ε) ScanResult) = .ok .clean := by
  have hblank : ∀ {text : List Char}, Blank text → '\x00' ∉ text := fun htext hmem => by
    have hnul := htext _ hmem
    revert hnul
    decide
  have hnone : '\x00' ∉ before ++ ("stream:".toList ++ (between ++ "OK".toList)) ++ after := by
    simp only [List.mem_append, not_or]
    exact ⟨⟨hblank hbefore, by decide, hblank hbetween, by decide⟩, hblank hafter⟩
  have hstream : "stream:".toList = 's' :: "tream:".toList := by decide
  have hend : "stream:".toList ++ (between ++ "OK".toList) = ("stream:".toList ++ (between ++ ['O'])) ++ ['K'] := by
    have hletters : "OK".toList = ['O'] ++ ['K'] := by decide
    rw [hletters]
    simp only [List.append_assoc]
  have hsolid : trim ("stream:".toList ++ (between ++ "OK".toList)) = "stream:".toList ++ (between ++ "OK".toList) := by
    rw [hstream, List.cons_append] at hend ⊢
    exact trim_eq_self (by decide) (by decide) hend
  have hok : trim (between ++ "OK".toList) = "OK".toList := by
    rw [trim_before hbetween]
    decide
  have hdrop : ("stream:".toList ++ (between ++ "OK".toList)).drop "stream:".length = between ++ "OK".toList := List.drop_left
  rw [parseResponse, h, cleanText, rdropWhile_append_nuls hnone, trim_after hafter, trim_before hbefore, hsolid]
  dsimp only
  rw [if_pos (List.isPrefixOf_iff_prefix.mpr (List.prefix_append _ _)), hdrop, hok, if_pos rfl]

/-- Only a clean reply is found clean. -/
theorem parseResponse_eq_clean :
    (parseResponse lossy raw : Except (ClamAvError ε) ScanResult) = .ok .clean ↔ IsClean raw := by
  constructor
  · intro h
    obtain ⟨before, between, after, nuls, hbefore, hbetween, hafter, htext⟩ := cleanText_of_parseResponse h
    refine ⟨before, between, after, nuls, hbefore, hbetween, hafter, ?_⟩
    cases hvalid : ofBytes? raw with
    | some text => rw [← htext, lossy.valid raw text hvalid, String.ofList_toList, bytes_of_ofBytes? hvalid]
    | none =>
      -- No clean text has a replacement character.
      have hmark := lossy.invalid raw hvalid
      have hblank : ∀ {text : List Char}, Blank text → '\uFFFD' ∉ text := fun htext hmem => by
        have hspace := htext _ hmem
        revert hspace
        decide
      rw [htext, cleanText] at hmark
      simp only [List.mem_append] at hmark
      rcases hmark with ((hmark | hmark | hmark | hmark) | hmark) | hmark
      · exact absurd hmark (hblank hbefore)
      · exact absurd hmark (by decide)
      · exact absurd hmark (hblank hbetween)
      · exact absurd hmark (by decide)
      · exact absurd hmark (hblank hafter)
      · exact absurd (List.eq_of_mem_replicate hmark) (by decide)
  · rintro ⟨before, between, after, nuls, hbefore, hbetween, hafter, rfl⟩
    have hdecode : lossy.decode (bytes (String.ofList (cleanText before between after nuls))) =
        cleanText before between after nuls := by
      rw [lossy.valid _ _ (ofBytes?_bytes _), String.toList_ofList]
    exact parseResponse_cleanText hbefore hbetween hafter hdecode

end Reply

/-- What is sent holds the payload and ends where it ends; only an `OK` alone is clean. -/
theorem scan_fails_closed {ε : Type} (lossy : Urlencoded.Lossy) (stream : Stream ε) (data : List UInt8) {chunkSize : Nat}
    (hpos : 0 < chunkSize) (hlt : chunkSize < 4294967296) :
    (∀ sent, send chunkSize stream data = .ok sent → ∃ chunks, instream sent = some chunks ∧ chunks.flatten = data ∧
      ∀ chunk ∈ chunks, 0 < chunk.length ∧ chunk.length ≤ chunkSize) ∧
    ((∀ sent bytes, stream.write sent bytes = .ok ()) → ∃ sent, send chunkSize stream data = .ok sent) ∧
    (∀ raw, (parseResponse lossy raw : Except (ClamAvError ε) ScanResult) = .ok .clean ↔ IsClean raw) ∧
    (scanOver lossy chunkSize stream data = .ok .clean ↔
      ∃ sent raw, send chunkSize stream data = .ok sent ∧ stream.reply sent = .ok raw ∧ IsClean raw) := by
  refine ⟨fun sent hsent => ?_, fun hopen => ⟨_, send_open hopen⟩, fun raw => parseResponse_eq_clean, ?_⟩
  · rw [send_eq_ok hsent]
    exact ⟨_, instream_request hpos hlt, Frames.flatten_chunks hpos data, fun chunk => Frames.length_of_mem_chunks⟩
  · constructor
    · intro h
      obtain ⟨sent, hsent, hrest⟩ := Except.bind_eq_ok.mp h
      obtain ⟨raw, hraw, hclean⟩ := Except.bind_eq_ok.mp hrest
      rw [Stream.readToEnd] at hraw
      split at hraw
      · rename_i hreply
        cases hraw
        exact ⟨sent, _, hsent, hreply, parseResponse_eq_clean.mp hclean⟩
      · cases hraw
    · rintro ⟨sent, raw, hsent, hreply, hclean⟩
      refine Except.bind_eq_ok.mpr ⟨sent, hsent, Except.bind_eq_ok.mpr ⟨raw, ?_, parseResponse_eq_clean.mpr hclean⟩⟩
      rw [Stream.readToEnd, hreply]

/-- A connection to a daemon that takes everything and finds nothing. -/
def quiet : Stream Unit := ⟨fun _ _ => .ok (), fun _ => .ok (Text.bytes "stream: OK\x00")⟩

def replacing (bs : List UInt8) : List Char := ((Text.ofBytes? bs).map String.toList).getD ['\uFFFD']

theorem replacing_valid (bs : List UInt8) (text : String) (h : Text.ofBytes? bs = some text) : replacing bs = text.toList := by
  rw [replacing, h, Option.map_some, Option.getD_some]

theorem replacing_invalid (bs : List UInt8) (h : Text.ofBytes? bs = none) : '\uFFFD' ∈ replacing bs := by
  rw [replacing, h]
  exact List.mem_singleton_self _

/-- One replacement character for a reply that is not UTF-8. -/
def replaced : Urlencoded.Lossy where
  decode := replacing
  valid := replacing_valid
  invalid := replacing_invalid

theorem quiet_clean : scanOver replaced 2 quiet [1, 2, 3] = .ok .clean := by
  obtain ⟨-, hsent, -, hclean⟩ := scan_fails_closed replaced quiet [1, 2, 3] (by decide : 0 < 2) (by decide)
  obtain ⟨sent, hsent⟩ := hsent fun _ _ => rfl
  refine hclean.mpr ⟨sent, _, hsent, rfl, [], [' '], [], 1, ?_, ?_, ?_, ?_⟩
  · exact fun c hc => absurd hc List.not_mem_nil
  · exact fun c hc => List.mem_singleton.mp hc ▸ by decide
  · exact fun c hc => absurd hc List.not_mem_nil
  · rfl

end Djangors.StaticFiles
