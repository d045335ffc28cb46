import Mathlib.Data.List.Basic

/-! # Texts that can be read back

A printer whose text of a value, followed by anything, determines the value and what follows it
(`PrefixFree`). Texts of this kind can be put one after the other without losing the borders. -/

namespace TextCode

section Codes
variable {α β : Type} {enc : α → List Char}

/-- The text of `x` is not a text of another value, nor the start of one. -/
def Decodes (enc : α → List Char) (x : α) : Prop := ∀ y s t, enc x ++ s = enc y ++ t → x = y ∧ s = t

def PrefixFree (enc : α → List Char) : Prop := ∀ x, Decodes enc x

theorem PrefixFree.injective (h : PrefixFree enc) : Function.Injective enc := fun x y hxy =>
  (h x y [] [] (by rw [hxy])).1

theorem append_cons_inj {c : Char} {xs ys s t : List Char} (hx : c ∉ xs) (hy : c ∉ ys)
    (h : xs ++ c :: s = ys ++ c :: t) : xs = ys ∧ s = t := by
  induction xs generalizing ys with
  | nil =>
    cases ys with
    | nil => simpa using h
    | cons y ys =>
      obtain ⟨rfl, _⟩ := List.cons.inj h
      simp at hy
  | cons x xs ih =>
    cases ys with
    | nil =>
      obtain ⟨rfl, _⟩ := List.cons.inj h
      simp at hx
    | cons y ys =>
      obtain ⟨rfl, htail⟩ := List.cons.inj h
      obtain ⟨rfl, rfl⟩ := @ih ys (fun hc => hx (by simp [hc])) (fun hc => hy (by simp [hc])) htail
      exact ⟨rfl, rfl⟩

/-- An injective printer that never prints `c` may be closed by `c`. -/
theorem prefixFree_delimited (inj : Function.Injective enc) {c : Char} (hc : ∀ x, c ∉ enc x) :
    PrefixFree fun x => enc x ++ [c] := by
  intro x y s t h
  simp only [List.append_assoc, List.singleton_append] at h
  obtain ⟨hxy, rfl⟩ := append_cons_inj (hc x) (hc y) h
  exact ⟨inj hxy, rfl⟩

theorem Decodes.tagged {tag s t : List Char} {x y : α} (h : Decodes enc x)
    (hst : tag ++ enc x ++ s = tag ++ enc y ++ t) : x = y ∧ s = t := by
  rw [List.append_assoc, List.append_assoc, List.append_cancel_left_eq] at hst
  exact h y s t hst

theorem Decodes.close {x : α} (h : Decodes enc x) (c : Char) : Decodes (fun y => enc y ++ [c]) x := by
  intro y s t hst
  rw [List.append_assoc, List.append_assoc] at hst
  obtain ⟨hxy, hst⟩ := h y _ _ hst
  exact ⟨hxy, List.append_cancel_left hst⟩

/-- The text starts with some other character than `c`. -/
def StartsOff (c : Char) (text : List Char) : Prop := ∃ d ds, text = d :: ds ∧ d ≠ c

/-- Items one after the other, closed by a character that starts none of them. -/
theorem Decodes.run {c : Char} {xs : List α} (h : ∀ x ∈ xs, Decodes enc x) (hc : ∀ x, StartsOff c (enc x)) :
    Decodes (fun xs => xs.flatMap enc ++ [c]) xs := by
  induction xs with
  | nil =>
    rintro (_ | ⟨y, ys⟩) s t hst
    · simpa using hst
    · obtain ⟨d, ds, hd, hne⟩ := hc y
      simp only [List.flatMap_nil, List.flatMap_cons, List.nil_append, hd, List.cons_append] at hst
      exact absurd (List.cons.inj hst).1.symm hne
  | cons x xs ih =>
    rintro (_ | ⟨y, ys⟩) s t hst
    · obtain ⟨d, ds, hd, hne⟩ := hc x
      simp only [List.flatMap_nil, List.flatMap_cons, List.nil_append, hd, List.cons_append] at hst
      exact absurd (List.cons.inj hst).1 hne
    · simp only [List.flatMap_cons, List.append_assoc] at hst
      obtain ⟨rfl, hst⟩ := h x (by simp) y _ _ hst
      obtain ⟨rfl, rfl⟩ := ih (fun x hx => h x (by simp [hx])) ys s t (by simpa using hst)
      exact ⟨rfl, rfl⟩

/-- The texts of a list with `sep` between them. -/
def sepBy (sep : List Char) (enc : α → List Char) : List α → List Char
  | [] => []
  | x :: xs => enc x ++ xs.flatMap fun y => sep ++ enc y

/-- A separated list, closed by a character that starts neither an item nor the separator. -/
theorem Decodes.sepBy {sep : List Char} {c : Char} {xs : List α} (h : ∀ x ∈ xs, Decodes enc x)
    (hc : ∀ x, StartsOff c (enc x)) (hsep : StartsOff c sep) : Decodes (fun xs => sepBy sep enc xs ++ [c]) xs := by
  obtain ⟨d, ds, rfl, hd⟩ := hsep
  have rest {x : α} (hx : Decodes enc x) : Decodes (fun y => d :: ds ++ enc y) x := fun y s t hst => by
    simp only [List.append_assoc, List.append_cancel_left_eq] at hst
    exact hx y s t hst
  intro ys s t hst
  cases xs with
  | nil =>
    cases ys with
    | nil => simpa [TextCode.sepBy] using hst
    | cons y ys =>
      obtain ⟨e, es, he, hne⟩ := hc y
      simp only [TextCode.sepBy, List.nil_append, he, List.cons_append] at hst
      exact absurd (List.cons.inj hst).1.symm hne
  | cons x xs =>
    cases ys with
    | nil =>
      obtain ⟨e, es, he, hne⟩ := hc x
      simp only [TextCode.sepBy, List.nil_append, he, List.cons_append] at hst
      exact absurd (List.cons.inj hst).1 hne
    | cons y ys =>
      simp only [TextCode.sepBy, List.append_assoc] at hst
      obtain ⟨rfl, hst⟩ := h x (by simp) y _ _ hst
      have run : Decodes (fun xs => (xs.flatMap fun y => d :: ds ++ enc y) ++ [c]) xs :=
        Decodes.run (fun x hx => rest (h x (by simp [hx]))) fun x => ⟨d, _, rfl, hd⟩
      obtain ⟨rfl, rfl⟩ := run ys s t (by simpa using hst)
      exact ⟨rfl, rfl⟩

theorem sepBy_injective {sep : List Char} {c : Char} (h : PrefixFree enc) (hc : ∀ x, StartsOff c (enc x))
    (hsep : StartsOff c sep) : Function.Injective (sepBy sep enc) := fun xs ys hxy =>
  (Decodes.sepBy (c := c) (fun x _ => h x) hc hsep ys [] [] (by simp [hxy])).1

end Codes

/-! ### Numbers -/

theorem digitChar_inj : ∀ m < 16, ∀ n < 16, m.digitChar = n.digitChar → m = n := by decide

theorem toDigits_injective {b : Nat} (hb : 1 < b) (hb' : b ≤ 16) : Function.Injective (Nat.toDigits b) := by
  intro m
  induction m using Nat.strongRecOn with
  | ind m ih =>
    intro n h
    have hlt (k : Nat) : k % b < 16 := Nat.lt_of_lt_of_le (Nat.mod_lt k (by omega)) hb'
    rcases Nat.lt_or_ge m b with hm | hm <;> rcases Nat.lt_or_ge n b with hn | hn
    · rw [Nat.toDigits_of_lt_base hm, Nat.toDigits_of_lt_base hn] at h
      exact digitChar_inj m (by omega) n (by omega) (List.cons.inj h).1
    -- a number below the base has one digit, another has more
    · rw [Nat.toDigits_of_lt_base hm, Nat.toDigits_of_base_le hb hn] at h
      have len := congrArg List.length h
      simp only [List.length_append, List.length_singleton] at len
      have := Nat.length_toDigits_pos (b := b) (n := n / b)
      omega
    · rw [Nat.toDigits_of_base_le hb hm, Nat.toDigits_of_lt_base hn] at h
      have len := congrArg List.length h
      simp only [List.length_append, List.length_singleton] at len
      have := Nat.length_toDigits_pos (b := b) (n := m / b)
      omega
    · rw [Nat.toDigits_of_base_le hb hm, Nat.toDigits_of_base_le hb hn] at h
      obtain ⟨hdiv, hmod⟩ := List.append_inj' h rfl
      have hq := ih (m / b) (Nat.div_lt_self (by omega) hb) hdiv
      have hr := digitChar_inj _ (hlt m) _ (hlt n) (List.cons.inj hmod).1
      rw [← Nat.div_add_mod m b, ← Nat.div_add_mod n b, hq, hr]

/-- The characters of a numeral are digits. -/
theorem exists_digit_of_mem {b n : Nat} (hb : 1 < b) {c : Char} (h : c ∈ Nat.toDigits b n) :
    ∃ k, c = Nat.digitChar k := by
  induction n using Nat.strongRecOn with
  | ind n ih =>
    rcases Nat.lt_or_ge n b with hn | hn
    · rw [Nat.toDigits_of_lt_base hn, List.mem_singleton] at h
      exact ⟨n, h⟩
    · rw [Nat.toDigits_of_base_le hb hn, List.mem_append, List.mem_singleton] at h
      rcases h with h | h
      · exact ih _ (Nat.div_lt_self (by omega) hb) h
      · exact ⟨n % b, h⟩

theorem toString_int_eq (v : Int) :
    (toString v).toList = if 0 ≤ v then Nat.toDigits 10 v.toNat else '-' :: Nat.toDigits 10 (-v).toNat := by
  rw [Int.toString_eq_repr, Int.repr_eq_if]
  split <;> simp

theorem toString_int_injective : Function.Injective fun v : Int => (toString v).toList := by
  intro v w h
  have ten := toDigits_injective (b := 10) (by decide) (by decide)
  have minus (n : Nat) : ∀ l, Nat.toDigits 10 n ≠ '-' :: l := fun l hl => by
    obtain ⟨k, hk⟩ := exists_digit_of_mem (b := 10) (n := n) (c := '-') (by decide) (by simp [hl])
    simp at hk
  simp only [toString_int_eq] at h
  split at h <;> split at h
  · have := ten h
    omega
  · exact absurd h (minus _ _)
  · exact absurd h.symm (minus _ _)
  · have := ten (List.cons.inj h).2
    omega

/-- A character that is no digit and no minus sign is not in a numeral. -/
theorem notMem_toString_int {c : Char} (hc : ∀ k, c ≠ Nat.digitChar k) (hm : c ≠ '-') (v : Int) :
    c ∉ (toString v).toList := by
  have digits (n : Nat) : c ∉ Nat.toDigits 10 n := fun h => by
    obtain ⟨k, hk⟩ := exists_digit_of_mem (by decide) h
    exact hc k hk
  rw [toString_int_eq]
  split
  · exact digits _
  · simpa [hm] using digits _

theorem notMem_sepBy {α : Type} {enc : α → List Char} {sep : List Char} {xs : List α} {c : Char} (hs : c ∉ sep)
    (h : ∀ x ∈ xs, c ∉ enc x) : c ∉ sepBy sep enc xs := by
  cases xs with
  | nil => simp [sepBy]
  | cons x xs => simp_all [sepBy]

end TextCode
