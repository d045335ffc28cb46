import Djangors.Lib.Lines
import Mathlib.Data.List.DropRight

/-! # Paths

The parts of a path between its slashes, and the percent-encoding of a part. -/

namespace Path

/-- A path without the slashes at its ends. -/
def trimSlashes (path : List Char) : List Char := (path.dropWhile (· == '/')).rdropWhile (· == '/')

/-- The parts of a trimmed path. An empty path has none. -/
def parts (path : List Char) : List (List Char) :=
  if trimSlashes path = [] then [] else (trimSlashes path).splitOn '/'

/-- Parts joined by slashes. -/
def join (parts : List (List Char)) : List Char := ['/'].intercalate parts

/-- Parts without the empty ones at both ends. -/
def inner (parts : List (List Char)) : List (List Char) := (parts.dropWhile (·.isEmpty)).rdropWhile (·.isEmpty)

section Parts
variable {ps : List (List Char)}

theorem notMem_of_mem_splitOn {path part : List Char} (h : part ∈ path.splitOn '/') : '/' ∉ part := by
  induction path using Text.splitOn_induct '/' with
  | piece path hpath =>
    rw [List.splitOn_eq_singleton hpath] at h
    rwa [List.mem_singleton.mp h]
  | more l r hl ih =>
    rw [List.splitOn_append_cons_self, List.splitOn_eq_singleton hl] at h
    rcases List.mem_cons.mp h with rfl | hr
    · exact hl
    · exact ih hr

theorem join_cons_cons (p q : List Char) (ps : List (List Char)) :
    join (p :: q :: ps) = p ++ '/' :: join (q :: ps) := by
  rw [join, List.intercalate_cons_cons, List.append_assoc]
  rfl

theorem join_singleton (p : List Char) : join [p] = p := List.intercalate_singleton

theorem join_concat (p : List Char) (hne : ps ≠ []) : join (ps ++ [p]) = join ps ++ '/' :: p := by
  induction ps with
  | nil => exact absurd rfl hne
  | cons q ps ih =>
    cases ps with
    | nil => rw [List.singleton_append, join_cons_cons, join_singleton, join_singleton]
    | cons r ps =>
      rw [List.cons_append, List.cons_append, join_cons_cons, ← List.cons_append, ih (List.cons_ne_nil _ _),
        join_cons_cons, List.append_assoc, List.cons_append]

theorem join_append {qs : List (List Char)} (hps : ps ≠ []) (hqs : qs ≠ []) : join (ps ++ qs) = join ps ++ '/' :: join qs := by
  induction qs using List.reverseRecOn with
  | nil => exact absurd rfl hqs
  | append_singleton qs q ih =>
    by_cases hnil : qs = []
    · rw [hnil, List.nil_append, join_concat q hps, join_singleton]
    · have happend : ps ++ qs ≠ [] := fun h => hnil (List.append_eq_nil_iff.mp h).2
      rw [← List.append_assoc, join_concat q happend, ih hnil, join_concat q hnil, List.append_assoc, List.cons_append]

theorem dropWhile_of_notMem {p : List Char} (h : '/' ∉ p) (hne : p ≠ []) (rest : List Char) :
    (p ++ rest).dropWhile (· == '/') = p ++ rest := by
  cases p with
  | nil => exact absurd rfl hne
  | cons c p =>
    refine List.dropWhile_cons_of_neg fun hc => h ?_
    rw [beq_iff_eq.mp hc]
    exact List.mem_cons_self ..

theorem rdropWhile_of_notMem {p : List Char} (h : '/' ∉ p) (hne : p ≠ []) (rest : List Char) :
    (rest ++ p).rdropWhile (· == '/') = rest ++ p := by
  rw [List.rdropWhile, List.reverse_append,
    dropWhile_of_notMem (fun hmem => h (List.mem_reverse.mp hmem)) (by rwa [ne_eq, List.reverse_eq_nil_iff]),
    List.reverse_append, List.reverse_reverse, List.reverse_reverse]

/-- The slashes before a path are the empty parts before its first part. -/
theorem dropWhile_join (h : ∀ p ∈ ps, '/' ∉ p) :
    (join ps).dropWhile (· == '/') = join (ps.dropWhile (·.isEmpty)) := by
  induction ps with
  | nil => rfl
  | cons p ps ih =>
    have hp := h p (List.mem_cons_self ..)
    cases p with
    | nil =>
      rw [List.dropWhile_cons_of_pos rfl, ← ih fun q hq => h q (List.mem_cons_of_mem _ hq)]
      cases ps with
      | nil => rfl
      | cons q ps => rw [join_cons_cons, List.nil_append, List.dropWhile_cons_of_pos rfl]
    | cons c p =>
      rw [List.dropWhile_cons_of_neg (by simp)]
      cases ps with
      | nil => rw [join_singleton, ← List.append_nil (c :: p), dropWhile_of_notMem hp (List.cons_ne_nil _ _)]
      | cons q ps => rw [join_cons_cons, dropWhile_of_notMem hp (List.cons_ne_nil _ _)]

/-- The slashes behind a path are the empty parts behind its last part. -/
theorem rdropWhile_join (h : ∀ p ∈ ps, '/' ∉ p) :
    (join ps).rdropWhile (· == '/') = join (ps.rdropWhile (·.isEmpty)) := by
  induction ps using List.reverseRecOn with
  | nil => rfl
  | append_singleton ps p ih =>
    have hp := h p (List.mem_append_right _ (List.mem_singleton_self p))
    cases p with
    | nil =>
      rw [List.rdropWhile_concat_pos _ _ _ rfl, ← ih fun q hq => h q (List.mem_append_left _ hq)]
      cases ps with
      | nil => rfl
      | cons q ps => rw [join_concat [] (List.cons_ne_nil _ _), List.rdropWhile_concat_pos _ _ _ rfl]
    | cons c p =>
      rw [List.rdropWhile_concat_neg _ _ _ (by simp)]
      cases ps with
      | nil =>
        rw [List.nil_append, join_singleton, ← List.nil_append (c :: p),
          rdropWhile_of_notMem hp (List.cons_ne_nil _ _)]
      | cons q ps =>
        rw [join_concat _ (List.cons_ne_nil _ _), List.append_cons,
          rdropWhile_of_notMem hp (List.cons_ne_nil _ _)]

/-- The inner parts do not start with an empty one. -/
theorem ne_nil_of_inner {p : List Char} {rest : List (List Char)} (h : inner ps = p :: rest) : p ≠ [] := by
  rcases List.rdropWhile_prefix (fun p : List Char => p.isEmpty) (ps.dropWhile (·.isEmpty)) with ⟨tail, htail⟩
  rw [← inner, h, List.cons_append] at htail
  have hfirst := List.head_dropWhile_not (fun p : List Char => p.isEmpty) (htail ▸ List.cons_ne_nil _ _)
  simp only [← htail, List.head_cons] at hfirst
  rintro rfl
  cases hfirst

/-- A path is read back as its parts without the empty ones at the ends. -/
theorem parts_join (h : ∀ p ∈ ps, '/' ∉ p) : parts ('/' :: join ps) = inner ps := by
  have htrim : trimSlashes ('/' :: join ps) = join (inner ps) := by
    rw [trimSlashes, List.dropWhile_cons_of_pos rfl, dropWhile_join h,
      rdropWhile_join fun p hp => h p ((List.dropWhile_sublist _).mem hp)]
    rfl
  rw [parts, htrim]
  split
  · rename_i hnil
    cases hinner : inner ps with
    | nil => rfl
    | cons p rest =>
      rw [hinner] at hnil
      cases rest with
      | nil =>
        rw [join_singleton] at hnil
        exact absurd hnil (ne_nil_of_inner hinner)
      | cons q rest =>
        rw [join_cons_cons] at hnil
        exact absurd (List.append_eq_nil_iff.mp hnil).2 (List.cons_ne_nil _ _)
  · rename_i hne
    refine List.splitOn_intercalate '/' (fun p hp => h p ?_) fun hnil => hne (by rw [hnil]; rfl)
    exact ((List.rdropWhile_prefix _ _).sublist.trans (List.dropWhile_sublist _)).mem hp

/-- The inner parts are fewer, unless neither end is empty. -/
theorem inner_length (ps : List (List Char)) :
    (inner ps).length = ps.length ↔ inner ps = ps :=
  ⟨((List.rdropWhile_prefix _ _).sublist.trans (List.dropWhile_sublist _)).eq_of_length, congrArg _⟩

theorem inner_eq_self (ps : List (List Char)) : inner ps = ps ↔ ps.head? ≠ some [] ∧ ps.getLast? ≠ some [] := by
  have hfront : ps.dropWhile (·.isEmpty) = ps ↔ ps.head? ≠ some [] := by
    cases ps with
    | nil => simp
    | cons p ps =>
      rw [List.dropWhile_eq_self_iff]
      simp
  have hback : ps.rdropWhile (·.isEmpty) = ps ↔ ps.getLast? ≠ some [] := by
    rw [List.rdropWhile_eq_self_iff]
    cases ps with
    | nil => simp
    | cons p ps => simp [List.getLast?_eq_getLast_of_ne_nil]
  constructor
  · intro h
    have hdrop : ps.dropWhile (·.isEmpty) = ps := by
      refine (List.dropWhile_sublist _).eq_of_length_le ?_
      rw [← congrArg List.length h]
      exact (List.rdropWhile_prefix _ _).length_le
    rw [inner, hdrop] at h
    exact ⟨hfront.mp hdrop, hback.mp h⟩
  · rintro ⟨hhead, hlast⟩
    rw [inner, hfront.mpr hhead, hback.mpr hlast]

end Parts


/-! ### Percent-encoding -/

/-- A byte as `%XX` -/
def hexEscape (byte : UInt8) : List Char :=
  ['%', (Nat.digitChar (byte.toNat / 16)).toUpper, (Nat.digitChar (byte.toNat % 16)).toUpper]

/-- Whether a character is left alone, with the ASCII characters that are encoded in a set. -/
def Kept (set : Char → Bool) (c : Char) : Prop := c.toNat < 128 ∧ set c = false

instance (set : Char → Bool) (c : Char) : Decidable (Kept set c) := inferInstanceAs (Decidable (_ ∧ _))

def escape (set : Char → Bool) (c : Char) : List Char :=
  if Kept set c then [c] else (String.utf8EncodeChar c).flatMap hexEscape

def percentEncode (set : Char → Bool) (text : List Char) : List Char := text.flatMap (escape set)

/-- What an encoder of path parts does. -/
structure PercentEncoding where
  encode : (Char → Bool) → List Char → List Char
  eq_self (set : Char → Bool) (text : List Char) : encode set text = text ↔ ∀ c ∈ text, Kept set c
  eq_nil (set : Char → Bool) (text : List Char) : encode set text = [] ↔ text = []
  noSlash {set : Char → Bool} (h : set '/' = true) (text : List Char) : '/' ∉ encode set text

section Encoding
variable {set : Char → Bool} {c : Char} {text : List Char}

theorem escape_length (set : Char → Bool) (c : Char) : 1 ≤ (escape set c).length ∧ (¬Kept set c → 1 < (escape set c).length) := by
  rw [escape]
  split
  · rename_i h
    exact ⟨Nat.le_refl _, fun hn => absurd h hn⟩
  · have hbytes : String.utf8EncodeChar c ≠ [] := String.utf8EncodeChar_ne_nil
    rcases List.exists_cons_of_ne_nil hbytes with ⟨byte, bytes, hcons⟩
    rw [hcons, List.flatMap_cons, List.length_append]
    have : (hexEscape byte).length = 3 := rfl
    exact ⟨by omega, fun _ => by omega⟩

theorem length_le_percentEncode (set : Char → Bool) (text : List Char) : text.length ≤ (percentEncode set text).length := by
  induction text with
  | nil => exact Nat.le_refl _
  | cons c text ih =>
    have := (escape_length set c).1
    rw [percentEncode, List.flatMap_cons, List.length_append, List.length_cons, ← percentEncode]
    omega

/-- A text is its own encoding when all its characters are left alone, and only then. -/
theorem percentEncode_eq_self : percentEncode set text = text ↔ ∀ c ∈ text, Kept set c := by
  induction text with
  | nil => exact ⟨fun _ _ hc => absurd hc List.not_mem_nil, fun _ => rfl⟩
  | cons c text ih =>
    rw [List.forall_mem_cons, ← ih, percentEncode, List.flatMap_cons, ← percentEncode]
    constructor
    · intro h
      by_cases hc : Kept set c
      · rw [escape, if_pos hc, List.singleton_append] at h
        exact ⟨hc, List.tail_eq_of_cons_eq h⟩
      · have hlen := congrArg List.length h
        have hescape := (escape_length set c).2 hc
        have hrest := length_le_percentEncode set text
        rw [List.length_append, List.length_cons] at hlen
        omega
    · rintro ⟨hc, htext⟩
      rw [escape, if_pos hc, htext]
      rfl

theorem percentEncode_eq_nil : percentEncode set text = [] ↔ text = [] := by
  constructor
  · intro h
    have hlen := length_le_percentEncode set text
    rw [h, List.length_nil, Nat.le_zero] at hlen
    exact List.length_eq_zero_iff.mp hlen
  · rintro rfl
    rfl

theorem slash_notMem_hexEscape (byte : UInt8) : '/' ∉ hexEscape byte := by
  have digit : ∀ n, n < 16 → (Nat.digitChar n).toUpper ≠ '/' := by decide
  have := byte.toNat_lt
  simp only [hexEscape, List.mem_cons, List.not_mem_nil, or_false, not_or]
  exact ⟨by decide, (digit _ (by omega)).symm, (digit _ (Nat.mod_lt _ (by omega))).symm⟩

/-- Where slashes are encoded, no slash is left. -/
theorem slash_notMem_percentEncode (h : set '/' = true) : '/' ∉ percentEncode set text := by
  intro hmem
  rcases List.mem_flatMap.mp hmem with ⟨c, -, hc⟩
  rw [escape] at hc
  split at hc
  · rename_i hkept
    rw [← List.mem_singleton.mp hc] at hkept
    exact absurd (h.symm.trans hkept.2) (by decide)
  · rcases List.mem_flatMap.mp hc with ⟨byte, -, hbyte⟩
    exact slash_notMem_hexEscape byte hbyte

end Encoding

/-- `utf8_percent_encode` -/
def utf8PercentEncode : PercentEncoding where
  encode := percentEncode
  eq_self _ _ := percentEncode_eq_self
  eq_nil _ _ := percentEncode_eq_nil
  noSlash h _ := slash_notMem_percentEncode h

end Path
