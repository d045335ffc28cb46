import Djangors.Orm.QueryCache

/-! # Cache keys

The key of a cached query determines its text and its parameters: the `Debug` texts of the parameters
can be read back one after the other and hold no NUL, so the last NUL of the key ends the text. -/

namespace Djangors.Orm
open Db TextCode

/-! ### Strings -/

/-- The characters with a short escape, with the letter of it. -/
def shortEscapes : List (Char × Char) :=
  [('\x00', '0'), ('\t', 't'), ('\r', 'r'), ('\n', 'n'), ('"', '"'), ('\\', '\\')]

theorem shortEscape_mem {c e : Char} (h : shortEscape c = some e) : (c, e) ∈ shortEscapes := by
  unfold shortEscape at h
  split at h <;> simp_all [shortEscapes, eq_comm]

theorem shortEscape_inj {c c' e : Char} (h : shortEscape c = some e) (h' : shortEscape c' = some e) : c = c' := by
  have inj : ∀ p ∈ shortEscapes, ∀ q ∈ shortEscapes, p.2 = q.2 → p.1 = q.1 := by decide
  exact inj _ (shortEscape_mem h) _ (shortEscape_mem h') rfl

theorem shortEscape_ne_u {c e : Char} (h : shortEscape c = some e) : e ≠ 'u' := by
  have ne : ∀ p ∈ shortEscapes, p.2 ≠ 'u' := by decide
  exact ne _ (shortEscape_mem h)

/-- A character without a short escape is neither a backslash, a quote nor a NUL. -/
theorem plain_of_shortEscape {c : Char} (h : shortEscape c = none) : c ≠ '\\' ∧ c ≠ '"' ∧ c ≠ '\x00' := by
  refine ⟨?_, ?_, ?_⟩ <;> rintro rfl <;> simp [shortEscape] at h

theorem hex_prefixFree : PrefixFree fun c : Char => Nat.toDigits 16 c.toNat ++ ['}'] := by
  refine prefixFree_delimited (fun c c' h => ?_) fun c hc => ?_
  · exact Char.toNat_inj.mp (toDigits_injective (by decide) (by decide) h)
  · obtain ⟨k, hk⟩ := exists_digit_of_mem (by decide) hc
    simp at hk

/-! ### Numbers -/

theorem int_prefixFree : PrefixFree fun v : Int => (toString v).toList ++ [')'] :=
  prefixFree_delimited toString_int_injective (notMem_toString_int (by simp) (by decide))

theorem bool_prefixFree : PrefixFree fun v : Bool => (toString v).toList ++ [')'] := by
  refine prefixFree_delimited (fun v w h => ?_) fun v => ?_
  · revert v w
    decide
  · revert v
    decide

section Debug
variable [Fmt]

theorem escapeDebug_prefixFree : PrefixFree escapeDebug := by
  intro c c' s t h
  cases hc : shortEscape c with
  | some e =>
    cases hc' : shortEscape c' with
    | some e' =>
      simp only [escapeDebug, hc, hc', List.cons_append, List.nil_append, List.cons.injEq, true_and] at h
      obtain ⟨rfl, rfl⟩ := h
      exact ⟨shortEscape_inj hc hc', rfl⟩
    | none =>
      simp only [escapeDebug, hc, hc'] at h
      split at h
      · exact absurd (List.cons.inj h).1.symm (plain_of_shortEscape hc').1
      · simp only [List.cons_append, List.cons.injEq, true_and] at h
        exact absurd h.1 (shortEscape_ne_u hc)
  | none =>
    cases hc' : shortEscape c' with
    | some e' =>
      simp only [escapeDebug, hc, hc'] at h
      split at h
      · exact absurd (List.cons.inj h).1 (plain_of_shortEscape hc).1
      · simp only [List.cons_append, List.cons.injEq, true_and] at h
        exact absurd h.1.symm (shortEscape_ne_u hc')
    | none =>
      simp only [escapeDebug, hc, hc'] at h
      split at h <;> split at h
      · simpa using h
      · exact absurd (List.cons.inj h).1 (plain_of_shortEscape hc).1
      · exact absurd (List.cons.inj h).1.symm (plain_of_shortEscape hc').1
      · simp only [List.append_assoc, List.append_cancel_left_eq] at h
        exact hex_prefixFree c c' s t (by simpa using h)

theorem escapeDebug_startsOff (c : Char) : StartsOff '"' (escapeDebug c) := by
  unfold escapeDebug
  cases hc : shortEscape c with
  | some e => exact ⟨'\\', _, rfl, by decide⟩
  | none =>
    dsimp only
    split
    · exact ⟨c, [], rfl, (plain_of_shortEscape hc).2.1⟩
    · exact ⟨'\\', _, rfl, by decide⟩

theorem nul_notMem_escapeDebug (c : Char) : '\x00' ∉ escapeDebug c := by
  unfold escapeDebug
  cases hc : shortEscape c with
  | some e =>
    have ne : ∀ p ∈ shortEscapes, '\x00' ≠ p.2 := by decide
    simpa using ne _ (shortEscape_mem hc)
  | none =>
    dsimp only
    split
    · simpa using (plain_of_shortEscape hc).2.2.symm
    · simp only [List.mem_append, not_or]
      refine ⟨by decide, fun h => ?_, by decide⟩
      obtain ⟨k, hk⟩ := exists_digit_of_mem (by decide) h
      simp at hk

/-! ### Values -/

theorem Value.debugTail_eq (vs : List Value) : Value.debugTail vs = vs.flatMap fun v => [',', ' '] ++ v.debug := by
  induction vs with
  | nil => rfl
  | cons v vs ih => rw [debugTail, List.flatMap_cons, ih]

theorem Value.debug_list (vs : List Value) :
    (Value.list vs).debug = ['L', 'i', 's', 't', '(', '['] ++ (sepBy [',', ' '] Value.debug vs ++ [']'] ++ [')']) := by
  cases vs with
  | nil => rfl
  | cons v vs => rw [debug, debugTail_eq]; rfl

theorem text_prefixFree : PrefixFree fun s : String => s.toList.flatMap escapeDebug ++ ['"'] := fun s s' t t' h => by
  obtain ⟨hs, rfl⟩ := Decodes.run (fun c _ => escapeDebug_prefixFree c) escapeDebug_startsOff s'.toList t t' h
  exact ⟨String.toList_inj.mp hs, rfl⟩

/-- The first letter of the variant of a value. -/
def Value.letter : Value → Char
  | .i64 _ => 'I'
  | .f64 _ => 'F'
  | .text _ => 'T'
  | .bool _ => 'B'
  | .dateTime _ => 'D'
  | .null => 'N'
  | .list _ => 'L'

theorem Value.debug_letter (v : Value) : ∃ rest, v.debug = v.letter :: rest := by
  cases v with
  | list vs =>
    rw [debug_list]
    exact ⟨_, rfl⟩
  | _ => exact ⟨_, rfl⟩

theorem Value.letter_eq {v w : Value} {s t : List Char} (h : v.debug ++ s = w.debug ++ t) : v.letter = w.letter := by
  obtain ⟨vs, hv⟩ := v.debug_letter
  obtain ⟨ws, hw⟩ := w.debug_letter
  rw [hv, hw] at h
  exact (List.cons.inj h).1

theorem Value.debug_startsOff {c : Char} (hc : c ∉ ['I', 'F', 'T', 'B', 'D', 'N', 'L']) (v : Value) :
    StartsOff c v.debug := by
  obtain ⟨rest, hv⟩ := v.debug_letter
  refine ⟨v.letter, rest, hv, fun h => hc (h ▸ ?_)⟩
  cases v <;> simp [letter]

variable [LawfulFmt]

theorem f64_prefixFree : PrefixFree fun v => (Fmt.f64Debug v).toList ++ [')'] :=
  prefixFree_delimited (fun _ _ h => LawfulFmt.f64Debug_inj _ _ (String.toList_inj.mp h)) fun v =>
    (LawfulFmt.f64Debug_plain v).1

theorem dateTime_prefixFree : PrefixFree fun v => (Fmt.dateTimeDebug v).toList ++ [')'] :=
  prefixFree_delimited (fun _ _ h => LawfulFmt.dateTimeDebug_inj _ _ (String.toList_inj.mp h)) fun v =>
    (LawfulFmt.dateTimeDebug_plain v).1

/-- The `Debug` text of a value can be read back. -/
theorem Value.debug_prefixFree : PrefixFree Value.debug := by
  intro v
  induction v using Value.ind with
  | i64 v =>
    intro w s t h
    have letter := letter_eq h
    cases w with
    | i64 w =>
      obtain ⟨rfl, rfl⟩ := (int_prefixFree v).tagged h
      exact ⟨rfl, rfl⟩
    | _ => simp [Value.letter] at letter
  | f64 v =>
    intro w s t h
    have letter := letter_eq h
    cases w with
    | f64 w =>
      obtain ⟨rfl, rfl⟩ := (f64_prefixFree v).tagged h
      exact ⟨rfl, rfl⟩
    | _ => simp [Value.letter] at letter
  | text v =>
    intro w s t h
    have letter := letter_eq h
    cases w with
    | text w =>
      obtain ⟨rfl, rfl⟩ := ((text_prefixFree v).close ')').tagged h
      exact ⟨rfl, rfl⟩
    | _ => simp [Value.letter] at letter
  | bool v =>
    intro w s t h
    have letter := letter_eq h
    cases w with
    | bool w =>
      obtain ⟨rfl, rfl⟩ := (bool_prefixFree v).tagged h
      exact ⟨rfl, rfl⟩
    | _ => simp [Value.letter] at letter
  | dateTime v =>
    intro w s t h
    have letter := letter_eq h
    cases w with
    | dateTime w =>
      obtain ⟨rfl, rfl⟩ := (dateTime_prefixFree v).tagged h
      exact ⟨rfl, rfl⟩
    | _ => simp [Value.letter] at letter
  | null =>
    intro w s t h
    have letter := letter_eq h
    cases w with
    | null => exact ⟨rfl, List.append_cancel_left h⟩
    | _ => simp [Value.letter] at letter
  | list vs ih =>
    intro w s t h
    have letter := letter_eq h
    cases w with
    | list ws =>
      have items : Decodes (fun vs => sepBy [',', ' '] Value.debug vs ++ [']']) vs :=
        Decodes.sepBy ih (debug_startsOff (by decide)) ⟨',', [' '], rfl, by decide⟩
      rw [debug_list, debug_list] at h
      obtain ⟨rfl, rfl⟩ := (items.close ')').tagged h
      exact ⟨rfl, rfl⟩
    | _ => simp [Value.letter] at letter

theorem Value.nul_notMem_debug (v : Value) : '\x00' ∉ v.debug := by
  induction v using Value.ind with
  | i64 v => simpa [debug] using notMem_toString_int (by simp) (by decide) v
  | f64 v => simpa [debug] using (LawfulFmt.f64Debug_plain v).2
  | text v => simpa [debug] using fun c _ => nul_notMem_escapeDebug c
  | bool v =>
    have plain : ∀ b : Bool, '\x00' ∉ (toString b).toList := by decide
    simpa [debug] using plain v
  | dateTime v => simpa [debug] using (LawfulFmt.dateTimeDebug_plain v).2
  | null => simp [debug]
  | list vs ih =>
    rw [debug_list]
    simpa using notMem_sepBy (by decide) ih

/-! ### Keys -/

/-- Queries of one table with one key have one text and the same parameters. -/
theorem findKey_inj {table sql sql' : String} {params params' : List Value}
    (h : findKey table sql params = findKey table sql' params') : sql = sql' ∧ params = params' := by
  have chars := List.append_cancel_left (String.ofList_injective h)
  have noNul (ps : List Value) : '\x00' ∉ (sepBy [','] Value.debug ps).reverse := by
    rw [List.mem_reverse]
    exact notMem_sepBy (by decide) fun v _ => v.nul_notMem_debug
  -- the last NUL of the key is the one in front of the parameters
  have reversed := congrArg List.reverse (List.cons.inj chars).2
  simp only [List.reverse_append, List.reverse_cons, List.append_assoc, List.singleton_append] at reversed
  obtain ⟨hp, hs⟩ := append_cons_inj (noNul params) (noNul params') reversed
  have separated : Function.Injective (sepBy [','] Value.debug) :=
    sepBy_injective (c := ']') Value.debug_prefixFree (Value.debug_startsOff (by decide)) ⟨',', [], rfl, by decide⟩
  exact ⟨String.toList_inj.mp (List.reverse_injective hs), separated (List.reverse_injective hp)⟩

end Debug

theorem F64.decimal_injective : Function.Injective F64.decimal := by
  have numeral (n : Nat) : toString n ≠ "NaN" := fun h => by
    obtain ⟨k, hk⟩ := exists_digit_of_mem (b := 10) (n := n) (c := 'N') (by decide) (by
      rw [← Nat.toList_repr, ← Nat.toString_eq_repr, h]
      decide)
    simp at hk
  rintro (⟨b, hb⟩ | _) (⟨b', hb'⟩ | _) h
  · have bits : b.toNat = b'.toNat := by
      refine toDigits_injective (b := 10) (by decide) (by decide) ?_
      rw [← Nat.toList_repr, ← Nat.toList_repr]
      exact congrArg String.toList h
    exact F64.num.congr_simp _ _ (UInt64.toNat_inj.mp bits) _
  · exact absurd h (numeral _)
  · exact absurd h.symm (numeral _)
  · rfl

theorem F64.notMem_decimal {c : Char} (hc : ∀ k, c ≠ Nat.digitChar k) (hn : c ∉ "NaN".toList) (x : F64) :
    c ∉ x.decimal.toList := by
  cases x with
  | num b hb =>
    intro h
    simp only [F64.decimal, Nat.toString_eq_repr, Nat.toList_repr] at h
    obtain ⟨k, hk⟩ := exists_digit_of_mem (by decide) h
    exact hc k hk
  | nan => exact hn

/-- Printing in plain decimal is lawful. -/
theorem Fmt.decimal_lawful : @LawfulFmt .decimal := by
  refine @LawfulFmt.mk .decimal (fun x y h => F64.decimal_injective h) (fun ⟨x⟩ ⟨y⟩ h => ?_)
    (fun x => ⟨F64.notMem_decimal (by simp) (by decide) x, F64.notMem_decimal (by simp) (by decide) x⟩)
    fun x => ⟨notMem_toString_int (by simp) (by decide) _, notMem_toString_int (by simp) (by decide) _⟩
  exact congrArg DateTime.mk (toString_int_injective (congrArg String.toList h))

end Djangors.Orm
