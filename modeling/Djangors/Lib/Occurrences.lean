import Mathlib.Order.Lattice
import Mathlib.Data.List.Basic

/-! # Occurrences

Times at which something occurs, listed one after the other without a gap. -/

section Occurrences
variable {α : Type} [LinearOrder α] (occurs : α → Prop)

/-- `u` is the first occurrence after `t`. -/
def IsNext (t u : α) : Prop := occurs u ∧ t < u ∧ ∀ v, occurs v → t < v → u ≤ v

/-- Occurrences in their order, each once, and all between the first and the last. -/
structure Consecutive (times : List α) : Prop where
  all : ∀ t ∈ times, occurs t
  increasing : times.Pairwise (· < ·)
  gapless : ∀ t ∈ times, ∀ t' ∈ times, ∀ u, occurs u → t ≤ u → u ≤ t' → u ∈ times

/-- Consecutive occurrences of which `next` is the one to come. -/
structure Awaiting (times : List α) (next : α) : Prop where
  upcoming : occurs next
  all : ∀ t ∈ times, occurs t
  increasing : times.Pairwise (· < ·)
  before : ∀ t ∈ times, t < next
  gapless : ∀ t ∈ times, ∀ u, occurs u → t ≤ u → u < next → u ∈ times

variable {occurs} {occurs' : α → Prop} {times : List α} {next next' t u u' : α}

theorem IsNext.unique (h : IsNext occurs t u) (h' : IsNext occurs t u') : u = u' :=
  le_antisymm (h.2.2 u' h'.1 h'.2.1) (h'.2.2 u h.1 h.2.1)

theorem isNext_congr (same : ∀ t, occurs t ↔ occurs' t) : IsNext occurs t u ↔ IsNext occurs' t u := by
  simp only [IsNext, same]

theorem Awaiting.start (h : occurs next) : Awaiting occurs [] next where
  upcoming := h
  all _ ht := absurd ht List.not_mem_nil
  increasing := .nil
  before _ ht := absurd ht List.not_mem_nil
  gapless _ ht := absurd ht List.not_mem_nil

theorem Awaiting.consecutive (h : Awaiting occurs times next) : Consecutive occurs times where
  all := h.all
  increasing := h.increasing
  gapless t ht t' ht' u hu hle hle' := h.gapless t ht u hu hle (lt_of_le_of_lt hle' (h.before t' ht'))

/-- The awaited occurrence comes, and the next one is awaited. -/
theorem Awaiting.step (h : Awaiting occurs times next) (hnext : IsNext occurs next next') :
    Awaiting occurs (times ++ [next]) next' := by
  obtain ⟨hoccurs, hlt, hfirst⟩ := hnext
  have mem : ∀ {t}, t ∈ times ++ [next] ↔ t ∈ times ∨ t = next := by simp
  refine ⟨hoccurs, ?_, ?_, ?_, ?_⟩
  · intro t ht
    rcases mem.mp ht with ht | rfl
    · exact h.all t ht
    · exact h.upcoming
  · rw [List.pairwise_append]
    refine ⟨h.increasing, List.pairwise_singleton _ _, fun t ht u hu => ?_⟩
    rw [List.mem_singleton.mp hu]
    exact h.before t ht
  · intro t ht
    rcases mem.mp ht with ht | rfl
    · exact lt_trans (h.before t ht) hlt
    · exact hlt
  · intro t ht u hu hle hlt'
    rw [mem]
    rcases lt_trichotomy u next with hu' | rfl | hu'
    · rcases mem.mp ht with ht | rfl
      · exact .inl (h.gapless t ht u hu hle hu')
      · exact absurd (lt_of_le_of_lt hle hu') (lt_irrefl _)
    · exact .inr rfl
    · exact absurd (lt_of_lt_of_le hlt' (hfirst u hu hu')) (lt_irrefl _)

end Occurrences
