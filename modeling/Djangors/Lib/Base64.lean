import Mathlib.Tactic.Common

/-! # Base64

The standard alphabet with canonical padding: what is decoded is what was encoded. -/

namespace Base64

/-- The symbol of a 6-bit value. -/
def symbol (i : Nat) : Char :=
  if i < 26 then Char.ofNat (i + 65)
  else if i < 52 then Char.ofNat (i + 71)
  else if i < 62 then Char.ofNat (i - 4)
  else if i = 62 then '+'
  else '/'

def value (c : Char) : Option Nat :=
  if 'A' ≤ c ∧ c ≤ 'Z' then some (c.toNat - 65)
  else if 'a' ≤ c ∧ c ≤ 'z' then some (c.toNat - 71)
  else if '0' ≤ c ∧ c ≤ '9' then some (c.toNat + 4)
  else if c = '+' then some 62
  else if c = '/' then some 63
  else none

def encode : List UInt8 → List Char
  | [] => []
  | [a] => [symbol (a.toNat / 4), symbol (a.toNat % 4 * 16), '=', '=']
  | [a, b] => [symbol (a.toNat / 4), symbol (a.toNat % 4 * 16 + b.toNat / 16), symbol (b.toNat % 16 * 4), '=']
  | a :: b :: c :: bytes =>
    symbol (a.toNat / 4) :: symbol (a.toNat % 4 * 16 + b.toNat / 16) ::
      symbol (b.toNat % 16 * 4 + c.toNat / 64) :: symbol (c.toNat % 64) :: encode bytes

/-- The bytes of the last four characters, which may be padded. Unused bits have to be zero. -/
def decodeLast (w x y z : Char) : Option (List UInt8) := do
  let i ← value w
  let j ← value x
  let a := UInt8.ofNat (i * 4 + j / 16)
  if y = '=' ∧ z = '=' then
    if j % 16 = 0 then some [a] else none
  else do
    let k ← value y
    let b := UInt8.ofNat (j % 16 * 16 + k / 4)
    if z = '=' then
      if k % 4 = 0 then some [a, b] else none
    else do
      let l ← value z
      some [a, b, UInt8.ofNat (k % 4 * 64 + l)]

/-- The bytes of four characters. -/
def decodeGroup (w x y z : Char) : Option (List UInt8) := do
  let i ← value w
  let j ← value x
  let k ← value y
  let l ← value z
  some [UInt8.ofNat (i * 4 + j / 16), UInt8.ofNat (j % 16 * 16 + k / 4), UInt8.ofNat (k % 4 * 64 + l)]

/-- The bytes of a text; `none` when it is no text of bytes. -/
def decode : List Char → Option (List UInt8)
  | [] => some []
  | [w, x, y, z] => decodeLast w x y z
  | w :: x :: y :: z :: text => do
    let group ← decodeGroup w x y z
    let rest ← decode text
    some (group ++ rest)
  | _ => none

theorem value_symbol {i : Nat} (h : i < 64) : value (symbol i) = some i :=
  (by decide : ∀ j : Fin 64, value (symbol j) = some j.val) ⟨i, h⟩

theorem symbol_ne {i : Nat} (h : i < 64) : symbol i ≠ '=' ∧ symbol i ≠ '.' :=
  (by decide : ∀ j : Fin 64, symbol j ≠ '=' ∧ symbol j ≠ '.') ⟨i, h⟩

theorem ofNat_toNat {a : UInt8} {n : Nat} (h : n = a.toNat) : UInt8.ofNat n = a := by
  rw [h, UInt8.ofNat_toNat]

/-- The characters of a last group of one byte. -/
theorem decodeLast_one (a : UInt8) :
    decodeLast (symbol (a.toNat / 4)) (symbol (a.toNat % 4 * 16)) '=' '=' = some [a] := by
  have ha := a.toNat_lt
  have hfirst : UInt8.ofNat (a.toNat / 4 * 4 + a.toNat % 4 * 16 / 16) = a := ofNat_toNat (by omega)
  have hrest : a.toNat % 4 * 16 % 16 = 0 := by omega
  rw [decodeLast, value_symbol (by omega), value_symbol (by omega)]
  simp only [Option.bind_eq_bind, Option.bind_some, and_self, if_true, hrest, hfirst]

/-- The characters of a last group of two bytes. -/
theorem decodeLast_two (a b : UInt8) :
    decodeLast (symbol (a.toNat / 4)) (symbol (a.toNat % 4 * 16 + b.toNat / 16)) (symbol (b.toNat % 16 * 4)) '=' =
      some [a, b] := by
  have ha := a.toNat_lt
  have hb := b.toNat_lt
  have hfirst : UInt8.ofNat (a.toNat / 4 * 4 + (a.toNat % 4 * 16 + b.toNat / 16) / 16) = a := ofNat_toNat (by omega)
  have hsecond : UInt8.ofNat ((a.toNat % 4 * 16 + b.toNat / 16) % 16 * 16 + b.toNat % 16 * 4 / 4) = b :=
    ofNat_toNat (by omega)
  have hrest : b.toNat % 16 * 4 % 4 = 0 := by omega
  have hsymbol : b.toNat % 16 * 4 < 64 := by omega
  rw [decodeLast, value_symbol (by omega), value_symbol (by omega), value_symbol hsymbol]
  simp only [Option.bind_eq_bind, Option.bind_some, (symbol_ne hsymbol).1, false_and, if_false, if_true, hrest, hfirst,
    hsecond]

theorem decodeGroup_three (a b c : UInt8) :
    decodeGroup (symbol (a.toNat / 4)) (symbol (a.toNat % 4 * 16 + b.toNat / 16))
      (symbol (b.toNat % 16 * 4 + c.toNat / 64)) (symbol (c.toNat % 64)) = some [a, b, c] := by
  have ha := a.toNat_lt
  have hb := b.toNat_lt
  have hc := c.toNat_lt
  have hfirst : UInt8.ofNat (a.toNat / 4 * 4 + (a.toNat % 4 * 16 + b.toNat / 16) / 16) = a := ofNat_toNat (by omega)
  have hsecond : UInt8.ofNat ((a.toNat % 4 * 16 + b.toNat / 16) % 16 * 16 + (b.toNat % 16 * 4 + c.toNat / 64) / 4) = b :=
    ofNat_toNat (by omega)
  have hthird : UInt8.ofNat ((b.toNat % 16 * 4 + c.toNat / 64) % 4 * 64 + c.toNat % 64) = c := ofNat_toNat (by omega)
  rw [decodeGroup, value_symbol (by omega), value_symbol (by omega), value_symbol (by omega), value_symbol (by omega)]
  simp only [Option.bind_eq_bind, Option.bind_some, hfirst, hsecond, hthird]

/-- A group without padding may stand anywhere. -/
theorem decode_group {w x y z : Char} {text : List Char} {bytes : List UInt8} (hz : z ≠ '=')
    (h : decode text = some bytes) :
    decode (w :: x :: y :: z :: text) = (decodeGroup w x y z).map (· ++ bytes) := by
  cases text with
  | nil =>
    cases h
    simp only [decode, decodeLast, decodeGroup, hz, and_false, if_false]
    cases value w <;> cases value x <;> cases value y <;> cases value z <;> rfl
  | cons u text =>
    rw [decode, h]
    · cases decodeGroup w x y z <;> rfl
    · simp

/-- What is decoded is what was encoded. -/
theorem decode_encode (bytes : List UInt8) : decode (encode bytes) = some bytes := by
  induction bytes using encode.induct with
  | case1 => rfl
  | case2 a => exact decodeLast_one a
  | case3 a b => exact decodeLast_two a b
  | case4 a b c bytes ih =>
    have hlast : c.toNat % 64 < 64 := Nat.mod_lt _ (by omega)
    rw [encode, decode_group (symbol_ne hlast).1 ih, decodeGroup_three]
    rfl

/-- What holds of all symbols and of the padding holds of the characters of a text. -/
theorem forall_mem_encode {P : Char → Prop} (hsymbol : ∀ i < 64, P (symbol i)) (hpad : P '=') (bytes : List UInt8) :
    ∀ c ∈ encode bytes, P c := by
  induction bytes using encode.induct with
  | case1 => exact fun c hc => absurd hc List.not_mem_nil
  | case2 a =>
    have ha := a.toNat_lt
    simp only [encode, List.forall_mem_cons]
    exact ⟨hsymbol _ (by omega), hsymbol _ (by omega), hpad, hpad, fun c hc => absurd hc List.not_mem_nil⟩
  | case3 a b =>
    have ha := a.toNat_lt
    have hb := b.toNat_lt
    simp only [encode, List.forall_mem_cons]
    exact ⟨hsymbol _ (by omega), hsymbol _ (by omega), hsymbol _ (by omega), hpad, fun c hc => absurd hc List.not_mem_nil⟩
  | case4 a b c bytes ih =>
    have ha := a.toNat_lt
    have hb := b.toNat_lt
    have hc := c.toNat_lt
    simp only [encode, List.forall_mem_cons]
    exact ⟨hsymbol _ (by omega), hsymbol _ (by omega), hsymbol _ (by omega), hsymbol _ (by omega), ih⟩

/-- The text of bytes has no dot. -/
theorem dot_notMem_encode (bytes : List UInt8) : '.' ∉ encode bytes := fun hdot =>
  forall_mem_encode (P := (· ≠ '.')) (fun _ hi => (symbol_ne hi).2) (by decide) bytes '.' hdot rfl

/-! ### One text for all bytes -/

theorem symbol_value {c : Char} {i : Nat} (h : value c = some i) : i < 64 ∧ symbol i = c := by
  have hback {n : Nat} (hn : n = c.toNat) : Char.ofNat n = c := hn ▸ Char.ofNat_toNat c
  unfold value at h
  split at h
  · rename_i hrange
    have hlow : 65 ≤ c.toNat := hrange.1
    have hhigh : c.toNat ≤ 90 := hrange.2
    cases h
    refine ⟨by omega, ?_⟩
    rw [symbol, if_pos (by omega)]
    exact hback (by omega)
  · split at h
    · rename_i hrange
      have hlow : 97 ≤ c.toNat := hrange.1
      have hhigh : c.toNat ≤ 122 := hrange.2
      cases h
      refine ⟨by omega, ?_⟩
      rw [symbol, if_neg (by omega), if_pos (by omega)]
      exact hback (by omega)
    · split at h
      · rename_i hrange
        have hlow : 48 ≤ c.toNat := hrange.1
        have hhigh : c.toNat ≤ 57 := hrange.2
        cases h
        refine ⟨by omega, ?_⟩
        rw [symbol, if_neg (by omega), if_neg (by omega), if_pos (by omega)]
        exact hback (by omega)
      · split at h
        · rename_i hplus
          cases h
          exact ⟨by omega, hplus.symm⟩
        · split at h
          · rename_i hslash
            cases h
            exact ⟨by omega, hslash.symm⟩
          · cases h

theorem toNat_ofNat {n : Nat} (h : n < 256) : (UInt8.ofNat n).toNat = n := by
  rw [UInt8.toNat_ofNat', Nat.mod_eq_of_lt h]

/-- A full group is the text of its three bytes. -/
theorem encode_decodeGroup {w x y z : Char} {bytes : List UInt8} (h : decodeGroup w x y z = some bytes)
    (rest : List UInt8) : encode (bytes ++ rest) = w :: x :: y :: z :: encode rest := by
  unfold decodeGroup at h
  obtain ⟨i, hi, h⟩ := Option.bind_eq_some_iff.mp h
  obtain ⟨j, hj, h⟩ := Option.bind_eq_some_iff.mp h
  obtain ⟨k, hk, h⟩ := Option.bind_eq_some_iff.mp h
  obtain ⟨l, hl, h⟩ := Option.bind_eq_some_iff.mp h
  cases h
  obtain ⟨hi, rfl⟩ := symbol_value hi
  obtain ⟨hj, rfl⟩ := symbol_value hj
  obtain ⟨hk, rfl⟩ := symbol_value hk
  obtain ⟨hl, rfl⟩ := symbol_value hl
  rw [List.cons_append, List.cons_append, List.cons_append, List.nil_append, encode, toNat_ofNat (by omega),
    toNat_ofNat (by omega), toNat_ofNat (by omega)]
  congr <;> omega

theorem encode_decodeLast {w x y z : Char} {bytes : List UInt8} (h : decodeLast w x y z = some bytes) :
    encode bytes = [w, x, y, z] := by
  unfold decodeLast at h
  obtain ⟨i, hi, h⟩ := Option.bind_eq_some_iff.mp h
  obtain ⟨j, hj, h⟩ := Option.bind_eq_some_iff.mp h
  simp only at h
  split at h
  · rename_i hpad
    split at h
    · rename_i hrest
      cases h
      obtain ⟨hi, rfl⟩ := symbol_value hi
      obtain ⟨hj, rfl⟩ := symbol_value hj
      rw [encode, toNat_ofNat (by omega), hpad.1, hpad.2]
      congr <;> omega
    · cases h
  · obtain ⟨k, hk, h⟩ := Option.bind_eq_some_iff.mp h
    split at h
    · rename_i hpad
      split at h
      · rename_i hrest
        cases h
        obtain ⟨hi, rfl⟩ := symbol_value hi
        obtain ⟨hj, rfl⟩ := symbol_value hj
        obtain ⟨hk, rfl⟩ := symbol_value hk
        rw [encode, toNat_ofNat (by omega), toNat_ofNat (by omega), hpad]
        congr <;> omega
      · cases h
    · obtain ⟨l, hl, h⟩ := Option.bind_eq_some_iff.mp h
      cases h
      have hgroup : decodeGroup w x y z =
          some [UInt8.ofNat (i * 4 + j / 16), UInt8.ofNat (j % 16 * 16 + k / 4), UInt8.ofNat (k % 4 * 64 + l)] := by
        simp only [decodeGroup, hi, hj, hk, hl, Option.bind_eq_bind, Option.bind_some]
      exact encode_decodeGroup hgroup []

/-- A text that is decoded is the text of its bytes. -/
theorem encode_decode {text : List Char} {bytes : List UInt8} (h : decode text = some bytes) : encode bytes = text := by
  induction text using decode.induct generalizing bytes with
  | case1 =>
    cases h
    rfl
  | case2 w x y z => exact encode_decodeLast h
  | case3 w x y z text hne ih =>
    rw [decode] at h
    · obtain ⟨group, hgroup, h⟩ := Option.bind_eq_some_iff.mp h
      obtain ⟨rest, hrest, h⟩ := Option.bind_eq_some_iff.mp h
      cases h
      rw [encode_decodeGroup hgroup, ih hrest]
    · exact hne
  | case4 => simp_all [decode]

end Base64
