import Djangors.Lib.Lines

/-! # UTF-8

The bytes of a text character by character, and texts in ASCII, which have a byte for each character. -/

namespace List
variable {α β : Type}

theorem splitOnP_map (f : α → β) (p : β → Bool) (l : List α) :
    (l.map f).splitOnP p = (l.splitOnP (p ∘ f)).map (map f) := by
  induction l with
  | nil => rfl
  | cons x l ih =>
    rw [map_cons, splitOnP_cons_eq_if_modifyHead, splitOnP_cons_eq_if_modifyHead, ih]
    cases h : p (f x) with
    | true => simp [h]
    | false => cases l.splitOnP (p ∘ f) <;> simp [h]

theorem mem_of_mem_splitOnP {p : α → Bool} {l part : List α} {x : α} (hpart : part ∈ l.splitOnP p) (hx : x ∈ part) : x ∈ l := by
  induction l generalizing part with
  | nil =>
    rw [splitOnP_nil, mem_singleton] at hpart
    exact hpart ▸ hx
  | cons y l ih =>
    rw [splitOnP_cons_eq_if_modifyHead] at hpart
    split at hpart
    · rcases mem_cons.mp hpart with rfl | hpart
      · cases hx
      · exact mem_cons_of_mem y (ih hpart hx)
    · cases hsplit : l.splitOnP p with
      | nil => exact absurd hsplit (splitOnP_ne_nil p l)
      | cons q qs =>
        rw [hsplit] at ih hpart
        rcases mem_cons.mp hpart with rfl | hpart
        · rcases mem_cons.mp hx with rfl | hx
          · exact mem_cons_self ..
          · exact mem_cons_of_mem y (ih (mem_cons_self ..) hx)
        · exact mem_cons_of_mem y (ih (mem_cons_of_mem q hpart) hx)

theorem rdropWhile_map (f : α → β) (p : β → Bool) (l : List α) : (l.map f).rdropWhile p = (l.rdropWhile (p ∘ f)).map f := by
  rw [rdropWhile, rdropWhile, ← map_reverse, dropWhile_map, map_reverse]

theorem dropWhile_congr {p q : α → Bool} {l : List α} (h : ∀ x ∈ l, p x = q x) : l.dropWhile p = l.dropWhile q := by
  induction l with
  | nil => rfl
  | cons x l ih =>
    rw [dropWhile_cons, dropWhile_cons, h x (by simp), ih fun y hy => h y (by simp [hy])]

theorem rdropWhile_congr {p q : α → Bool} {l : List α} (h : ∀ x ∈ l, p x = q x) : l.rdropWhile p = l.rdropWhile q := by
  rw [rdropWhile, rdropWhile, dropWhile_congr fun x hx => h x (mem_reverse.mp hx)]

end List

namespace Text

theorem bytes_ofList (l : List Char) : bytes (String.ofList l) = l.flatMap String.utf8EncodeChar := by
  simp [bytes, List.utf8Encode]

theorem bytes_append (l l' : List Char) :
    bytes (String.ofList (l ++ l')) = bytes (String.ofList l) ++ bytes (String.ofList l') := by
  rw [bytes_ofList, bytes_ofList, bytes_ofList, List.flatMap_append]

theorem bytes_injective {l l' : List Char} (h : bytes (String.ofList l) = bytes (String.ofList l')) : l = l' := by
  have htext := congrArg ofBytes? h
  rw [ofBytes?_bytes, ofBytes?_bytes, Option.some_inj] at htext
  exact String.ofList_injective htext

/-! ### ASCII -/

/-- The character of a byte. -/
def byteChar (b : UInt8) : Char := Char.ofNat b.toNat

theorem toNat_byteChar (b : UInt8) : (byteChar b).toNat = b.toNat := by
  have hvalid : b.toNat.isValidChar := .inl (Nat.lt_trans b.toNat_lt (by decide))
  rw [byteChar, Char.ofNat, dif_pos hvalid]
  rfl

theorem byteChar_inj {a b : UInt8} : byteChar a = byteChar b ↔ a = b := by
  refine ⟨fun h => ?_, fun h => h ▸ rfl⟩
  rw [← UInt8.toNat_inj, ← toNat_byteChar, ← toNat_byteChar, h]

theorem encode_byteChar {b : UInt8} (h : b < 128) : String.utf8EncodeChar (byteChar b) = [b] := by
  have hval : (byteChar b).val.toNat = b.toNat := toNat_byteChar b
  have hlt : b.toNat < 128 := UInt8.lt_iff_toNat_lt.mp h
  have hle : (byteChar b).val.toNat ≤ 127 := by omega
  rw [String.utf8EncodeChar, if_pos hle, hval, UInt8.ofNat_toNat]

/-- A byte of ASCII is the encoding of a character of its own. -/
theorem eq_byteChar {c : Char} {b : UInt8} (h : b ∈ String.utf8EncodeChar c) (hb : b < 128) : c = byteChar b := by
  have hlt : b.toNat < 128 := UInt8.lt_iff_toNat_lt.mp hb
  have tail : ∀ n, 128 ≤ n → n < 256 → b ≠ UInt8.ofNat n := by
    rintro n hlow hhigh rfl
    rw [UInt8.toNat_ofNat', Nat.mod_eq_of_lt hhigh] at hlt
    omega
  rw [String.utf8EncodeChar] at h
  split at h
  · rename_i hval
    rw [List.mem_singleton] at h
    apply Char.ext
    apply UInt32.toNat_inj.mp
    have hbyte : b.toNat = c.val.toNat := by rw [h, UInt8.toNat_ofNat', Nat.mod_eq_of_lt (by omega)]
    exact hbyte.symm.trans (toNat_byteChar b).symm
  · exfalso
    split at h
    · simp only [List.mem_cons, List.not_mem_nil, or_false] at h
      rcases h with h | h <;> exact tail _ (by omega) (by omega) h
    · split at h <;> simp only [List.mem_cons, List.not_mem_nil, or_false] at h
      · rcases h with h | h | h <;> exact tail _ (by omega) (by omega) h
      · rcases h with h | h | h | h <;> exact tail _ (by omega) (by omega) h

/-- The bytes of a text in ASCII are those of its characters. -/
theorem bytes_byteChars {l : List UInt8} (h : ∀ b ∈ l, b < 128) : bytes (String.ofList (l.map byteChar)) = l := by
  induction l with
  | nil => rfl
  | cons b l ih =>
    rw [bytes_ofList] at ih ⊢
    rw [List.map_cons, List.flatMap_cons, encode_byteChar (h b (by simp)), ih fun c hc => h c (by simp [hc])]
    rfl

end Text
