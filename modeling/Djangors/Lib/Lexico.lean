import Mathlib.Data.List.Sort

/-! # Orders of several levels

The first of several levels that tells two elements apart decides (`Precedes`). A list in such an order, whose elements
are all told apart, is the only one with these elements, and behind each element stand the ones that follow it in the
order. -/

namespace Lexico
variable {α : Type}

/-- The first of several levels that tells two elements apart decides. -/
def Precedes {ι : Type} (level : ι → α → α → Prop) : List ι → α → α → Prop
  | [], _, _ => False
  | i :: is, a, b => level i a b ∨ ¬level i b a ∧ Precedes level is a b

/-! ### Levels -/

section Levels
variable {ι : Type} {level : ι → α → α → Prop} {is : List ι} {a b c : α}

instance decidablePrecedes [∀ i, DecidableRel (level i)] : (is : List ι) → DecidableRel (Precedes level is)
  | [], _, _ => inferInstanceAs (Decidable False)
  | i :: is, a, b =>
    have : DecidableRel (Precedes level is) := decidablePrecedes is
    inferInstanceAs (Decidable (level i a b ∨ ¬level i b a ∧ Precedes level is a b))

theorem asymm (h : ∀ i a b, level i a b → ¬level i b a) (hab : Precedes level is a b) : ¬Precedes level is b a := by
  induction is with
  | nil => exact absurd hab id
  | cons i is ih =>
    rintro (hba | ⟨hnot, hba⟩)
    · rcases hab with hab | ⟨hnot, -⟩
      · exact h i a b hab hba
      · exact hnot hba
    · rcases hab with hab | ⟨-, hab⟩
      · exact hnot hab
      · exact ih hab hba

/-- An element between two others is told apart from one of them. -/
theorem between (h : ∀ i a b c, level i a c → level i a b ∨ level i b c) (hac : Precedes level is a c) :
    Precedes level is a b ∨ Precedes level is b c := by
  induction is with
  | nil => exact absurd hac id
  | cons i is ih =>
    rcases hac with hac | ⟨hca, hac⟩
    · exact (h i a b c hac).imp .inl .inl
    · by_cases hab : level i a b
      · exact .inl (.inl hab)
      by_cases hbc : level i b c
      · exact .inr (.inl hbc)
      -- No two of the three are told apart at this level.
      have hba : ¬level i b a := fun hba => (h i b c a hba).elim hbc hca
      have hcb : ¬level i c b := fun hcb => (h i c a b hcb).elim hca hab
      exact (ih hac).imp (.inr ⟨hba, ·⟩) (.inr ⟨hcb, ·⟩)

/-- A level that is repeated says no more. -/
theorem precedes_repeated {i : ι} : Precedes level (i :: i :: is) a b ↔ Precedes level (i :: is) a b := by
  constructor
  · rintro (h | ⟨-, h⟩)
    · exact .inl h
    · exact h
  · rintro (h | ⟨hnot, h⟩)
    · exact .inl h
    · exact .inr ⟨hnot, .inr ⟨hnot, h⟩⟩

end Levels

/-! ### Sorted lists -/

section Sorted
variable {lt : α → α → Prop} {items items' before after : List α} {a : α}

theorem sorted_of_distinct (h : items.Pairwise fun a b => ¬lt b a) (hdistinct : items.Pairwise fun a b => lt a b ∨ lt b a) :
    items.Pairwise lt :=
  (h.and hdistinct).imp fun ⟨hnot, hor⟩ => hor.resolve_right hnot

theorem sorted_unique (hasymm : ∀ a b, lt a b → ¬lt b a) (hperm : items.Perm items') (h : items.Pairwise lt)
    (h' : items'.Pairwise lt) : items = items' :=
  hperm.eq_of_pairwise (fun a b _ _ hab hba => absurd hba (hasymm a b hab)) h h'

/-- Behind an element of a sorted list stand the elements that follow it in the order. -/
theorem filter_follows [DecidableRel lt] (hasymm : ∀ a b, lt a b → ¬lt b a) (h : (before ++ a :: after).Pairwise lt) :
    (before ++ a :: after).filter (fun b => lt a b) = after := by
  obtain ⟨-, hafter, hbefore⟩ := List.pairwise_append.mp h
  have hnone : before.filter (fun b => lt a b) = [] := by
    refine List.filter_eq_nil_iff.mpr fun b hb hab => ?_
    exact hasymm b a (hbefore b hb a List.mem_cons_self) (of_decide_eq_true hab)
  have hself : ¬decide (lt a a) = true := fun haa => hasymm a a (of_decide_eq_true haa) (of_decide_eq_true haa)
  rw [List.filter_append, hnone, List.nil_append, List.filter_cons, if_neg hself]
  exact List.filter_eq_self.mpr fun b hb => decide_eq_true ((List.pairwise_cons.mp hafter).1 b hb)

end Sorted

/-- Two conditions select the same elements of a list exactly when they agree on it. -/
theorem filter_inj {p q : α → Bool} {items : List α} : items.filter p = items.filter q ↔ ∀ a ∈ items, p a = q a := by
  refine ⟨fun h a ha => ?_, List.filter_congr⟩
  rw [Bool.eq_iff_iff]
  have hmem : a ∈ items.filter p ↔ a ∈ items.filter q := by rw [h]
  rwa [List.mem_filter, List.mem_filter, and_iff_right ha, and_iff_right ha] at hmem

end Lexico
