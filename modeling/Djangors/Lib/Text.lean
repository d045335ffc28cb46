import Mathlib.Algebra.BigOperators.Group.List.Basic
import Mathlib.Algebra.Ring.Nat

/-! # Texts

The bytes of a text, the text cut at a byte, and decimal numbers that are printed and read back. -/

namespace Text

/-- The UTF-8 bytes of a text. -/
def bytes (text : String) : List UInt8 := text.toUTF8.data.toList

/-- The text with these bytes, if they are UTF-8. -/
def ofBytes? (bytes : List UInt8) : Option String := String.fromUTF8? ⟨bytes.toArray⟩

theorem ofBytes?_bytes (text : String) : ofBytes? (bytes text) = some text := by
  have hbytes : (⟨(bytes text).toArray⟩ : ByteArray) = text.toByteArray := by simp [bytes]
  rw [ofBytes?, hbytes, String.fromUTF8?, dif_pos text.isValidUTF8]
  rfl

theorem bytes_of_ofBytes? {bs : List UInt8} {text : String} (h : ofBytes? bs = some text) : bytes text = bs := by
  rw [ofBytes?, String.fromUTF8?] at h
  split at h
  · rw [← Option.some.inj h]
    simp [bytes, String.fromUTF8]
  · cases h

/-- The first `n` bytes of a text; `none` when they end inside a character or the text is shorter. -/
def cut (n : Nat) : List Char → Option (List Char)
  | [] => if n = 0 then some [] else none
  | c :: text =>
    if n = 0 then some []
    else if c.utf8Size ≤ n then (cut (n - c.utf8Size) text).map (c :: ·)
    else none

/-- Cut after as many bytes as its start has, a text leaves its start. -/
theorem cut_append (l r : List Char) : cut (l.map Char.utf8Size).sum (l ++ r) = some l := by
  induction l with
  | nil => cases r <;> simp [cut]
  | cons c l ih =>
    have hc := c.utf8Size_pos
    rw [List.map_cons, List.sum_cons, List.cons_append, cut, if_neg (by omega), if_pos (Nat.le_add_right ..),
      Nat.add_sub_cancel_left, ih]
    rfl

/-! ### Decimal numbers -/

/-- The number of one or more decimal digits. -/
def digits? (text : List Char) : Option Nat :=
  if text ≠ [] ∧ text.all Char.isDigit then some (Nat.ofDigitChars 10 text 0) else none

/-- Reads an unsigned number below a bound, with or without a plus sign. -/
def parseUnsigned (bound : Nat) (text : List Char) : Option Nat :=
  (match text with
    | '+' :: rest => digits? rest
    | _ => digits? text).filter (· < bound)

/-- Reads a signed number whose magnitude is at most a bound, with or without a sign. -/
def parseSigned (bound : Nat) (text : List Char) : Option Int :=
  (match text with
    | '+' :: rest => (digits? rest).map Int.ofNat
    | '-' :: rest => (digits? rest).map fun n => -Int.ofNat n
    | _ => (digits? text).map Int.ofNat).filter fun i => -(bound : Int) ≤ i ∧ i < bound

theorem digits_of_toString (n : Nat) : (toString n).toList ≠ [] ∧ ∀ c ∈ (toString n).toList, c.isDigit = true := by
  rw [Nat.toString_eq_ofList_toDigits, String.toList_ofList]
  exact ⟨Nat.toDigits_ne_nil, fun c hc => Nat.isDigit_of_mem_toDigits (by omega) (by omega) hc⟩

theorem digits?_toString (n : Nat) : digits? (toString n).toList = some n := by
  have hdigits := digits_of_toString n
  rw [digits?, if_pos ⟨hdigits.1, List.all_eq_true.mpr hdigits.2⟩, Nat.toString_eq_ofList_toDigits, String.toList_ofList,
    Nat.ofDigitChars_ten_toDigits]

/-- The text of a natural number starts with no sign. -/
theorem head_toString {n : Nat} {sign : Char} (h : sign.isDigit = false) (rest : List Char) :
    (toString n).toList ≠ sign :: rest := by
  intro heq
  have hsign := (digits_of_toString n).2 sign (heq ▸ List.mem_cons_self ..)
  rw [h] at hsign
  cases hsign

/-- A number ends at a character that is no digit. -/
theorem span_digits (n : Nat) (sep : Char) (hsep : sep.isDigit = false) (rest : List Char) :
    ((toString n).toList ++ sep :: rest).takeWhile (· ≠ sep) = (toString n).toList ∧
      ((toString n).toList ++ sep :: rest).dropWhile (· ≠ sep) = sep :: rest := by
  have hdigits : ∀ c ∈ (toString n).toList, decide (c ≠ sep) = true := by
    intro c hc
    refine decide_eq_true fun heq => ?_
    rw [heq] at hc
    rw [(digits_of_toString n).2 sep hc] at hsep
    cases hsep
  rw [List.takeWhile_append_of_pos hdigits, List.dropWhile_append_of_pos hdigits]
  simp

theorem parseUnsigned_toString {bound n : Nat} (h : n < bound) : parseUnsigned bound (toString n).toList = some n := by
  rw [parseUnsigned]
  · rw [digits?_toString]
    exact Option.filter_some_pos (decide_eq_true h)
  · exact head_toString rfl

theorem toString_negSucc (n : Nat) : (toString (Int.negSucc n)).toList = '-' :: (toString (n + 1)).toList := by
  have htext : toString (Int.negSucc n) = "-" ++ toString (n + 1) := rfl
  rw [htext, String.toList_append]
  rfl

theorem parseSigned_bounds {bound : Nat} {text : List Char} {i : Int} (h : parseSigned bound text = some i) :
    -(bound : Int) ≤ i ∧ i < bound := of_decide_eq_true (Option.filter_eq_some_iff.mp h).2

theorem parseSigned_toString {bound : Nat} {i : Int} (lower : -(bound : Int) ≤ i) (upper : i < bound) :
    parseSigned bound (toString i).toList = some i := by
  have inside : decide (-(bound : Int) ≤ i ∧ i < bound) = true := decide_eq_true ⟨lower, upper⟩
  cases i with
  | ofNat n =>
    have htext : toString (Int.ofNat n) = toString n := rfl
    rw [htext, parseSigned]
    · rw [digits?_toString, Option.map_some]
      exact Option.filter_some_pos inside
    · exact head_toString rfl
    · exact head_toString rfl
  | negSucc n =>
    rw [toString_negSucc, parseSigned, digits?_toString]
    exact Option.filter_some_pos inside

end Text
