import Mathlib.Data.List.Basic

/-! # Interleavings -/

/-- `zs` runs the steps of `xs` and of `ys`, each in its order. -/
inductive Interleaved {α : Type} : List α → List α → List α → Prop
  | nil : Interleaved [] [] []
  | left {x : α} {xs ys zs : List α} (h : Interleaved xs ys zs) : Interleaved (x :: xs) ys (x :: zs)
  | right {y : α} {xs ys zs : List α} (h : Interleaved xs ys zs) : Interleaved xs (y :: ys) (y :: zs)

/-- All interleavings of two lists. -/
def interleavings {α : Type} : List α → List α → List (List α)
  | [], ys => [ys]
  | xs, [] => [xs]
  | x :: xs, y :: ys => (interleavings xs (y :: ys)).map (x :: ·) ++ (interleavings (x :: xs) ys).map (y :: ·)
termination_by xs ys => xs.length + ys.length

theorem interleaved_left_only {α : Type} (xs : List α) : Interleaved xs [] xs := by
  induction xs with
  | nil => exact .nil
  | cons x xs ih => exact .left ih

theorem interleaved_right_only {α : Type} (ys : List α) : Interleaved [] ys ys := by
  induction ys with
  | nil => exact .nil
  | cons y ys ih => exact .right ih

theorem interleavings_nil_right {α : Type} (xs : List α) : interleavings xs [] = [xs] := by
  cases xs <;> simp [interleavings]

theorem mem_interleavings {α : Type} {xs ys zs : List α} : zs ∈ interleavings xs ys ↔ Interleaved xs ys zs := by
  constructor
  · intro h
    induction xs, ys using interleavings.induct generalizing zs with
    | case1 ys =>
      simp only [interleavings, List.mem_singleton] at h
      exact h ▸ interleaved_right_only ys
    | case2 xs hx =>
      rw [interleavings_nil_right, List.mem_singleton] at h
      exact h ▸ interleaved_left_only xs
    | case3 x xs y ys ih₁ ih₂ =>
      simp only [interleavings, List.mem_append, List.mem_map] at h
      rcases h with ⟨ws, hw, rfl⟩ | ⟨ws, hw, rfl⟩
      · exact .left (ih₁ hw)
      · exact .right (ih₂ hw)
  · intro h
    induction h with
    | nil => simp [interleavings]
    | @left x xs ys zs h ih =>
      cases ys with
      | nil => simp_all [interleavings_nil_right]
      | cons y ys => simp [interleavings, ih]
    | @right y xs ys zs h ih =>
      cases xs with
      | nil => simp_all [interleavings]
      | cons x xs => simp [interleavings, ih]

/-! ## Locks

Who holds which lock, when a lock covers some of the resources. -/

namespace Locks
variable {W L R : Type} (covers : L → R → Bool) (locks : List (W × L))

def locked (r : R) : Bool := locks.any fun lock => covers lock.2 r

/-- No resource is covered by locks of two holders. -/
def Exclusive : Prop :=
  ∀ lock ∈ locks, ∀ other ∈ locks, lock.1 ≠ other.1 → ∀ r, covers lock.2 r = true → covers other.2 r = false

def release [DecidableEq W] (w : W) : List (W × L) := locks.filter (·.1 ≠ w)

variable {covers locks} {w : W} {r : R}

theorem locked_eq_false : locked covers locks r = false ↔ ∀ lock ∈ locks, covers lock.2 r = false := by
  rw [locked, List.any_eq_false]
  simp only [Bool.not_eq_true]

theorem exclusive_nil : Exclusive covers ([] : List (W × L)) := nofun

/-- One holder takes locks on resources that are free. -/
theorem Exclusive.acquire {ls : List L} (h : Exclusive covers locks)
    (free : ∀ l ∈ ls, ∀ r, covers l r = true → locked covers locks r = false) :
    Exclusive covers (ls.map (fun l => (w, l)) ++ locks) := by
  intro lock hlock other hother hne r hr
  rcases List.mem_append.mp hlock with hlock | hlock
  · obtain ⟨l, hl, rfl⟩ := List.mem_map.mp hlock
    rcases List.mem_append.mp hother with hother | hother
    · obtain ⟨_, _, rfl⟩ := List.mem_map.mp hother
      exact absurd rfl hne
    · exact locked_eq_false.mp (free l hl r hr) other hother
  · rcases List.mem_append.mp hother with hother | hother
    · obtain ⟨l, hl, rfl⟩ := List.mem_map.mp hother
      refine Bool.eq_false_iff.mpr fun hr' => ?_
      rw [locked_eq_false.mp (free l hl r hr') lock hlock] at hr
      cases hr
    · exact h lock hlock other hother hne r hr

theorem Exclusive.acquire_one {l : L} (h : Exclusive covers locks)
    (free : ∀ r, covers l r = true → locked covers locks r = false) : Exclusive covers ((w, l) :: locks) :=
  have free' : ∀ l' ∈ [l], ∀ r, covers l' r = true → locked covers locks r = false := by
    intro l' hl'
    rwa [List.mem_singleton.mp hl']
  h.acquire free'

variable [DecidableEq W]

theorem mem_release {lock : W × L} : lock ∈ release locks w ↔ lock ∈ locks ∧ lock.1 ≠ w := by
  rw [release, List.mem_filter, decide_eq_true_iff]

theorem Exclusive.release (h : Exclusive covers locks) : Exclusive covers (release locks w) := by
  intro lock hlock other hother
  exact h lock (mem_release.mp hlock).1 other (mem_release.mp hother).1

end Locks
