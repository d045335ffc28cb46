import Mathlib.Data.List.Infix

/-! # Patterns with wildcards

The patterns of `LIKE`: `%` stands for any text, `_` for any character, and after the escape character, where a rule has
one, each character stands for itself. A rule compares characters after folding them. A pattern finds a text literally
when the text holds no such character (`holds_iff_of_plain`), and else some other text matches (`exists_mismatch`). -/

namespace Like

/-- A part of a pattern. -/
inductive Piece where
  | any
  | one
  | char (c : Char)
deriving DecidableEq, Repr

/-- How patterns are read and characters compared. -/
structure Rule where
  escape : Option Char
  fold : Char → Char

def piece (c : Char) : Piece := if c = '%' then .any else if c = '_' then .one else .char c

namespace Rule

/-- The parts of a pattern. An escape character at its end is an error. -/
def pieces (rule : Rule) : List Char → Option (List Piece)
  | [] => some []
  | [c] => if rule.escape = some c then none else some [piece c]
  | c :: d :: cs =>
    if rule.escape = some c then (rule.pieces cs).map (.char d :: ·) else (rule.pieces (d :: cs)).map (piece c :: ·)

/-- Whether the parts of a pattern match a text. -/
def fits (rule : Rule) : List Piece → List Char → Bool
  | [], text => text.isEmpty
  | .any :: ps, text => text.tails.any (rule.fits ps)
  | .one :: ps, text => match text with
    | [] => false
    | _ :: text => rule.fits ps text
  | .char p :: ps, text => match text with
    | [] => false
    | c :: text => rule.fold p == rule.fold c && rule.fits ps text

/-- Whether a pattern matches a text. -/
def holds (rule : Rule) (pattern text : List Char) : Bool :=
  match rule.pieces pattern with
  | none => false
  | some ps => rule.fits ps text

/-- A character that stands for itself. -/
def Plain (rule : Rule) (c : Char) : Prop := c ≠ '%' ∧ c ≠ '_' ∧ rule.escape ≠ some c

end Rule

/-- Wildcards around a text. -/
def around (before after : Bool) (s : List Char) : List Char :=
  (if before then ['%'] else []) ++ s ++ if after then ['%'] else []

/-- What a text between wildcards looks for: the text anywhere, at the start, at the end, or the text alone. -/
def Found (before after : Bool) (s text : List Char) : Prop :=
  ∃ u v, text = u ++ s ++ v ∧ (before = false → u = []) ∧ (after = false → v = [])

example : (Rule.mk none id).holds "%b_d".toList "abcd".toList = true := by decide

/-! ### Matching -/

section Match
variable {rule : Rule}

theorem fits_any {ps : List Piece} {text : List Char} :
    rule.fits (.any :: ps) text = true ↔ ∃ u v, text = u ++ v ∧ rule.fits ps v = true := by
  rw [Rule.fits, List.any_eq_true]
  constructor
  · rintro ⟨v, hv, hfits⟩
    obtain ⟨u, rfl⟩ := (List.mem_tails v text).mp hv
    exact ⟨u, v, rfl, hfits⟩
  · rintro ⟨u, v, rfl, hfits⟩
    exact ⟨v, (List.mem_tails v _).mpr (List.suffix_append u v), hfits⟩

/-- Characters match the texts that fold to the same. -/
theorem fits_chars {s text : List Char} {ps : List Piece} :
    rule.fits (s.map .char ++ ps) text = true ↔
      ∃ u v, text = u ++ v ∧ s.map rule.fold = u.map rule.fold ∧ rule.fits ps v = true := by
  induction s generalizing text with
  | nil => simp
  | cons c s ih =>
    cases text with
    | nil => simp [Rule.fits]
    | cons d text =>
      rw [List.map_cons, List.cons_append, Rule.fits, Bool.and_eq_true, beq_iff_eq, ih]
      constructor
      · rintro ⟨hcd, u, v, rfl, hs, hfits⟩
        exact ⟨d :: u, v, rfl, by rw [List.map_cons, List.map_cons, hcd, hs], hfits⟩
      · rintro ⟨u, v, htext, hs, hfits⟩
        cases u with
        | nil => cases hs
        | cons d' u =>
          cases htext
          obtain ⟨hcd, hs⟩ := List.cons.inj hs
          exact ⟨hcd, u, v, rfl, hs, hfits⟩

/-- Characters between wildcards match the texts in which they are found. -/
theorem fits_around {before after : Bool} {s text : List Char} :
    rule.fits ((if before then [.any] else []) ++ s.map .char ++ if after then [.any] else []) text = true ↔
      Found before after (s.map rule.fold) (text.map rule.fold) := by
  have hend (v : List Char) : rule.fits (if after then [.any] else []) v = true ↔ (after = false → v = []) := by
    cases after with
    | false => simp [Rule.fits]
    | true => exact iff_of_true (fits_any.mpr ⟨v, [], (List.append_nil v).symm, rfl⟩) nofun
  have hstart : rule.fits ((if before then [.any] else []) ++ s.map .char ++ if after then [.any] else []) text = true ↔
      ∃ u rest, text = u ++ rest ∧ (before = false → u = []) ∧
        rule.fits (s.map .char ++ if after then [.any] else []) rest = true := by
    cases before with
    | false => simp
    | true => simp [fits_any]
  rw [hstart, Found]
  constructor
  · rintro ⟨u, _, rfl, hu, hfits⟩
    obtain ⟨w, v, rfl, hw, hv⟩ := fits_chars.mp hfits
    refine ⟨u.map rule.fold, v.map rule.fold, ?_, fun h => by rw [hu h]; rfl, fun h => ?_⟩
    · rw [hw, List.map_append, List.map_append, List.append_assoc]
    · rw [(hend v).mp hv h]
      rfl
  · rintro ⟨u, v, htext, hu, hv⟩
    obtain ⟨uw, v', rfl, huw, rfl⟩ := List.map_eq_append_iff.mp htext
    obtain ⟨u', w, rfl, rfl, hw⟩ := List.map_eq_append_iff.mp huw
    refine ⟨u', w ++ v', List.append_assoc _ _ _, fun h => List.map_eq_nil_iff.mp (hu h), fits_chars.mpr ⟨w, v', rfl, hw.symm, ?_⟩⟩
    exact (hend v').mpr fun h => List.map_eq_nil_iff.mp (hv h)

theorem fits_append {ps qs : List Piece} {u v : List Char} (hu : rule.fits ps u = true) (hv : rule.fits qs v = true) :
    rule.fits (ps ++ qs) (u ++ v) = true := by
  induction ps generalizing u with
  | nil =>
    obtain rfl := List.isEmpty_iff.mp hu
    exact hv
  | cons p ps ih =>
    cases p with
    | any =>
      obtain ⟨w, x, rfl, hx⟩ := fits_any.mp hu
      rw [List.append_assoc]
      exact fits_any.mpr ⟨w, x ++ v, rfl, ih hx⟩
    | one =>
      cases u with
      | nil => cases hu
      | cons c u => exact ih (u := u) hu
    | char p =>
      cases u with
      | nil => cases hu
      | cons c u =>
        rw [Rule.fits, Bool.and_eq_true] at hu
        rw [List.cons_append, List.cons_append, Rule.fits, hu.1, ih hu.2]
        rfl

end Match

/-! ### Reading patterns -/

section Read
variable {rule : Rule}

theorem pieces_cons {c : Char} (hc : rule.escape ≠ some c) (cs : List Char) :
    rule.pieces (c :: cs) = (rule.pieces cs).map (piece c :: ·) := by
  cases cs with
  | nil => simp [Rule.pieces, hc]
  | cons d cs => rw [Rule.pieces, if_neg hc]

theorem pieces_append {s : List Char} {qs : List Piece} (h : rule.pieces s = some qs) (t : List Char) :
    rule.pieces (s ++ t) = (rule.pieces t).map (qs ++ ·) := by
  fun_induction rule.pieces s generalizing qs with
  | case1 =>
    cases h
    simp
  | case2 => cases h
  | case3 c hc =>
    cases h
    rw [List.singleton_append, pieces_cons hc]
    rfl
  | case4 c d cs hc ih =>
    obtain ⟨qs', hqs', rfl⟩ := Option.map_eq_some_iff.mp h
    rw [List.cons_append, List.cons_append, Rule.pieces, if_pos hc, ih hqs', Option.map_map]
    rfl
  | case5 c d cs hc ih =>
    obtain ⟨qs', hqs', rfl⟩ := Option.map_eq_some_iff.mp h
    rw [List.cons_append, pieces_cons hc, ih hqs', Option.map_map]
    rfl

theorem piece_of_plain {c : Char} (h : rule.Plain c) : piece c = .char c := by
  rw [piece, if_neg h.1, if_neg h.2.1]

theorem pieces_plain {s : List Char} (h : ∀ c ∈ s, rule.Plain c) : rule.pieces s = some (s.map .char) := by
  induction s with
  | nil => rfl
  | cons c s ih =>
    obtain ⟨hc, hs⟩ := List.forall_mem_cons.mp h
    rw [pieces_cons hc.2.2, ih hs, piece_of_plain hc]
    rfl

/-- The wildcards around a text are read as such. -/
theorem pieces_around (hpercent : rule.escape ≠ some '%') {before after : Bool} {s : List Char} {qs : List Piece}
    (h : rule.pieces s = some qs) : rule.pieces (around before after s) =
      some ((if before then [.any] else []) ++ qs ++ if after then [.any] else []) := by
  have hend : rule.pieces (s ++ if after then ['%'] else []) = some (qs ++ if after then [.any] else []) := by
    rw [pieces_append h]
    cases after with
    | false => rfl
    | true => simp [Rule.pieces, hpercent, piece]
  rw [around, List.append_assoc, List.append_assoc]
  cases before with
  | false => exact hend
  | true =>
    exact (pieces_cons hpercent _).trans (congrArg (Option.map (piece '%' :: ·)) hend)

/-- A text whose characters stand for themselves is looked for as it is. -/
theorem holds_iff_of_plain (hpercent : rule.escape ≠ some '%') {before after : Bool} {s : List Char}
    (h : ∀ c ∈ s, rule.Plain c) (text : List Char) : rule.holds (around before after s) text = true ↔
      Found before after (s.map rule.fold) (text.map rule.fold) := by
  rw [Rule.holds, pieces_around hpercent (pieces_plain h)]
  exact fits_around

/-! ### Mismatches -/

/-- A character that a part of a pattern matches. -/
def Piece.sample (fill : Char) : Piece → Char
  | .any | .one => fill
  | .char c => c

theorem fits_sample (fill : Char) (ps : List Piece) : rule.fits ps (ps.map (Piece.sample fill)) = true := by
  induction ps with
  | nil => rfl
  | cons p ps ih =>
    cases p with
    | any => exact fits_any.mpr ⟨[fill], _, rfl, ih⟩
    | one => exact ih
    | char c => rw [List.map_cons, Rule.fits, ih, Piece.sample, beq_self_eq_true]; rfl

/-- Folding tells `fill` from the wildcards and the escape character from `%`. -/
structure Separates (rule : Rule) (g : Char → Char) (fill : Char) : Prop where
  percent : g fill ≠ g '%'
  underscore : g fill ≠ g '_'
  escape : ∀ c, rule.escape = some c → g '%' ≠ g c

variable {g : Char → Char} {fill : Char} {s : List Char} {qs : List Piece}

theorem pieces_length (h : rule.pieces s = some qs) : qs.length ≤ s.length := by
  fun_induction rule.pieces s generalizing qs with
  | case1 => cases h; rfl
  | case2 => cases h
  | case3 => cases h; rfl
  | case4 c d cs hc ih =>
    obtain ⟨qs', hqs', rfl⟩ := Option.map_eq_some_iff.mp h
    have := ih hqs'
    simp only [List.length_cons]
    omega
  | case5 c d cs hc ih =>
    obtain ⟨qs', hqs', rfl⟩ := Option.map_eq_some_iff.mp h
    exact Nat.succ_le_succ (ih hqs')

theorem piece_sample (hg : Separates rule g fill) {c : Char} (hc : rule.escape ≠ some c) (hplain : ¬rule.Plain c) :
    g ((piece c).sample fill) ≠ g c := by
  by_cases hpercent : c = '%'
  · subst hpercent
    exact hg.percent
  · by_cases hunder : c = '_'
    · subst hunder
      exact hg.underscore
    · exact absurd ⟨hpercent, hunder, hc⟩ hplain

/-- A sample of a pattern with wildcards or escapes is another text, and no longer one. -/
theorem sample_ne (hg : Separates rule g fill) (h : rule.pieces s = some qs) (hs : ∃ c ∈ s, ¬rule.Plain c) :
    (qs.map (Piece.sample fill)).map g ≠ s.map g := by
  fun_induction rule.pieces s generalizing qs with
  | case1 => simp at hs
  | case2 => cases h
  | case3 c hc =>
    cases h
    obtain ⟨_, hmem, hplain⟩ := hs
    cases List.mem_singleton.mp hmem
    intro heq
    exact piece_sample hg hc hplain (List.cons.inj heq).1
  | case4 c d cs hc ih =>
    obtain ⟨qs', hqs', rfl⟩ := Option.map_eq_some_iff.mp h
    -- An escape makes one part of two characters.
    intro heq
    have hlength := congrArg List.length heq
    have hle := pieces_length hqs'
    simp only [List.length_map, List.length_cons] at hlength
    omega
  | case5 c d cs hc ih =>
    obtain ⟨qs', hqs', rfl⟩ := Option.map_eq_some_iff.mp h
    intro heq
    obtain ⟨hhead, htail⟩ := List.cons.inj heq
    by_cases hplain : rule.Plain c
    · obtain ⟨x, hx, hxplain⟩ := hs
      rcases List.mem_cons.mp hx with rfl | hx
      · exact hxplain hplain
      · exact ih hqs' ⟨x, hx, hxplain⟩ htail
    · exact piece_sample hg hc hplain hhead

/-- An escape character at the end of a text takes the wildcard behind it for itself. -/
theorem sample_swallowed (hg : Separates rule g fill) (h : rule.pieces s = none) :
    ∃ qs, rule.pieces (s ++ ['%']) = some qs ∧ qs.length ≤ s.length ∧ (qs.map (Piece.sample fill)).map g ≠ s.map g := by
  fun_induction rule.pieces s with
  | case1 => cases h
  | case2 c hc =>
    refine ⟨[.char '%'], by simp [Rule.pieces, hc], le_rfl, fun heq => ?_⟩
    exact hg.escape c hc (List.cons.inj heq).1
  | case3 => cases h
  | case4 c d cs hc ih =>
    obtain ⟨qs, hqs, hle, -⟩ := ih (Option.map_eq_none_iff.mp h)
    refine ⟨.char d :: qs, ?_, by simp only [List.length_cons]; omega, fun heq => ?_⟩
    · rw [List.cons_append, List.cons_append, Rule.pieces, if_pos hc, hqs]
      rfl
    · have hlength := congrArg List.length heq
      simp only [List.length_map, List.length_cons] at hlength
      omega
  | case5 c d cs hc ih =>
    obtain ⟨qs, hqs, hle, hne⟩ := ih (Option.map_eq_none_iff.mp h)
    refine ⟨piece c :: qs, ?_, Nat.succ_le_succ hle, fun heq => hne (List.cons.inj heq).2⟩
    rw [List.cons_append, pieces_cons hc, hqs]
    rfl

/-- What is found in a text that is no longer is the text. -/
theorem eq_of_found {before after : Bool} {s text : List Char} (h : Found before after s text)
    (hlength : text.length ≤ s.length) : text = s := by
  obtain ⟨u, v, rfl, -, -⟩ := h
  simp only [List.length_append] at hlength
  have hu : u = [] := List.eq_nil_of_length_eq_zero (by omega)
  have hv : v = [] := List.eq_nil_of_length_eq_zero (by omega)
  rw [hu, hv, List.nil_append, List.append_nil]

/-- A text with a wildcard or an escape character is not looked for as it is. -/
theorem exists_mismatch (hg : Separates rule g fill) (hpercent : rule.escape ≠ some '%') (before after : Bool)
    (hs : ∃ c ∈ s, ¬rule.Plain c) :
    ∃ text, ¬(rule.holds (around before after s) text = true ↔ Found before after (s.map g) (text.map g)) := by
  have sampled {qs : List Piece} (hlength : qs.length ≤ s.length) (hne : (qs.map (Piece.sample fill)).map g ≠ s.map g)
      (hholds : rule.holds (around before after s) (qs.map (Piece.sample fill)) = true) :
      ∃ text, ¬(rule.holds (around before after s) text = true ↔ Found before after (s.map g) (text.map g)) :=
    ⟨_, fun hiff => hne (eq_of_found (hiff.mp hholds) (by simpa using hlength))⟩
  have empty (wild : Bool) : rule.fits (if wild then [.any] else []) [] = true := by
    cases wild with
    | false => rfl
    | true => exact fits_any.mpr ⟨[], [], rfl, rfl⟩
  cases h : rule.pieces s with
  | some qs =>
    refine sampled (pieces_length h) (sample_ne hg h hs) ?_
    rw [Rule.holds, pieces_around hpercent h]
    simpa using fits_append (fits_append (empty before) (fits_sample fill qs)) (empty after)
  | none =>
    cases after with
    | true =>
      obtain ⟨qs, hqs, hlength, hne⟩ := sample_swallowed hg h
      refine sampled hlength hne ?_
      have haround : around before true s = around before false (s ++ ['%']) := by simp [around]
      rw [Rule.holds, haround, pieces_around hpercent hqs]
      simpa using fits_append (empty before) (fits_sample fill qs)
    | false =>
      refine ⟨s, fun hiff => ?_⟩
      have hfound : Found before false (s.map g) (s.map g) := ⟨[], [], by simp, fun _ => rfl, fun _ => rfl⟩
      have hholds := hiff.mpr hfound
      have hnone : rule.pieces (around before false s) = none := by
        cases before with
        | false => simpa [around] using h
        | true =>
          have hcons := pieces_cons hpercent s
          rw [h] at hcons
          simpa [around] using hcons
      rw [Rule.holds, hnone] at hholds
      cases hholds

/-- A text with a character that folds as another one finds the other. -/
theorem exists_folded (hpercent : rule.escape ≠ some '%') (before after : Bool) (hs : ∀ c ∈ s, rule.Plain c)
    {other : Char → Char} (hother : ∀ c, rule.fold (other c) = rule.fold c) (hne : ∃ c ∈ s, other c ≠ c) :
    ∃ text, ¬(rule.holds (around before after s) text = true ↔ Found before after s text) := by
  refine ⟨s.map other, fun hiff => ?_⟩
  have hfound : Found before after (s.map rule.fold) ((s.map other).map rule.fold) := by
    refine ⟨[], [], ?_, fun _ => rfl, fun _ => rfl⟩
    rw [List.map_map, List.nil_append, List.append_nil]
    exact List.map_congr_left fun c _ => hother c
  have heq := eq_of_found (hiff.mp ((holds_iff_of_plain hpercent hs _).mpr hfound)) (by simp)
  obtain ⟨c, hc, hcne⟩ := hne
  exact hcne (List.map_inj_left.mp (heq.trans (List.map_id s).symm) c hc)

end Read

end Like
