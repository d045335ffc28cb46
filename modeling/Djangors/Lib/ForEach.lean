import Djangors.Lib.Lists

/-! # Loops that stop at the first failure

A step may have had its effect when it fails. A store takes an element or leaves the state as it was, and then reads back
what it has stored. -/

/-- `for x in xs { step(x)?; }`: the state that the loop leaves, and its results. -/
def forEach {σ α β ε : Type} (step : σ → α → σ × Except ε β) : σ → List α → σ × Except ε (List β)
  | s, [] => (s, .ok [])
  | s, x :: xs =>
    match step s x with
    | (s, .error e) => (s, .error e)
    | (s, .ok y) =>
      let (s, ys) := forEach step s xs
      (s, ys.map (y :: ·))

/-- What of an element is stored, when it is taken. -/
structure Store (σ α ρ : Type) where
  takes : σ → α → Prop
  make : σ → α → ρ
  add : σ → ρ → σ

namespace Store
variable {σ α β ε ρ : Type} (store : Store σ α ρ)

def next (s : σ) (x : α) : σ := store.add s (store.make s x)

def TakesEach : σ → List α → Prop
  | _, [] => True
  | s, x :: xs => store.takes s x ∧ TakesEach (store.next s x) xs

/-- What is stored for elements that are taken one after the other. -/
def made : σ → List α → List ρ
  | _, [] => []
  | s, x :: xs => store.make s x :: made (store.next s x) xs

/-- A step that stores an element that is taken and reads it back, and else fails with no effect. -/
structure Steps (step : σ → α → σ × Except ε β) (read : ρ → Except ε β) : Prop where
  taken : ∀ {s x}, store.takes s x → step s x = (store.next s x, read (store.make s x))
  refused : ∀ {s x}, ¬ store.takes s x → ∃ e, step s x = (s, .error e)

variable {store} {step : σ → α → σ × Except ε β} {read : ρ → Except ε β} {s : σ} {x : α} {xs : List α}

@[simp] theorem length_made : (store.made s xs).length = xs.length := by
  induction xs generalizing s with
  | nil => rfl
  | cons x xs ih => simp [made, ih]

theorem made_eq_nil : store.made s xs = [] ↔ xs = [] := by
  rw [← List.length_eq_zero_iff, length_made, List.length_eq_zero_iff]

/-- The elements and what is stored for them. -/
theorem forall₂_made {P : α → ρ → Prop} (h : ∀ s, ∀ x ∈ xs, P x (store.make s x)) :
    List.Forall₂ P xs (store.made s xs) := by
  induction xs generalizing s with
  | nil => exact .nil
  | cons x xs ih => exact .cons (h s x (by simp)) (ih fun s y hy => h s y (by simp [hy]))

/-- How far the loop comes: it has stored some first elements. It has stored all when all are taken and all but the last
    are read back, and it succeeds when all are taken and read back. -/
theorem forEach_stores (h : store.Steps step read) (s : σ) (xs : List α) :
    ∃ k ≤ xs.length, (forEach step s xs).1 = ((store.made s xs).take k).foldl store.add s ∧
      (∀ x ∈ xs.head?, 0 < k ↔ store.takes s x) ∧
      (k = xs.length ↔ store.TakesEach s xs ∧ ∀ r ∈ (store.made s xs).dropLast, ∃ y, read r = .ok y) ∧
      ((∃ ys, (forEach step s xs).2 = .ok ys) ↔ store.TakesEach s xs ∧ ∀ r ∈ store.made s xs, ∃ y, read r = .ok y) := by
  induction xs generalizing s with
  | nil => exact ⟨0, Nat.le_refl 0, rfl, by simp, by simp [TakesEach, made], by simp [TakesEach, made, forEach]⟩
  | cons x xs ih =>
    by_cases htakes : store.takes s x
    · have hstep := h.taken htakes
      cases hread : read (store.make s x) with
      | error e =>
        have hloop : forEach step s (x :: xs) = (store.next s x, .error e) := by rw [forEach, hstep, hread]
        refine ⟨1, by simp, by simp [hloop, made, next], by simp [htakes], ?_, by simp [hloop, made, hread]⟩
        cases xs with
        | nil => simp [TakesEach, made, htakes]
        | cons z zs => simp [made, hread]
      | ok y =>
        obtain ⟨k, hle, hstate, _, hall, hok⟩ := ih (store.next s x)
        have hloop : forEach step s (x :: xs) = ((forEach step (store.next s x) xs).1,
            (forEach step (store.next s x) xs).2.map (y :: ·)) := by rw [forEach, hstep, hread]
        refine ⟨k + 1, by simpa using hle, ?_, by simp [htakes], ?_, ?_⟩
        · rw [hloop, made, List.take_succ_cons, List.foldl_cons]
          exact hstate
        · rw [List.length_cons, Nat.add_left_inj, hall, TakesEach, made]
          cases xs with
          | nil => simp [htakes, made]
          | cons z zs => simp [htakes, made, hread]
        · have hmap : (∃ ys, (forEach step s (x :: xs)).2 = .ok ys) ↔
              ∃ ys, (forEach step (store.next s x) xs).2 = .ok ys := by
            rw [hloop]
            cases (forEach step (store.next s x) xs).2 <;> simp [Except.map]
          rw [hmap, hok, TakesEach, made]
          simp [htakes, hread]
    · obtain ⟨e, hstep⟩ := h.refused htakes
      have hloop : forEach step s (x :: xs) = (s, .error e) := by rw [forEach, hstep]
      exact ⟨0, Nat.zero_le _, by simp [hloop], by simp [htakes], by simp [TakesEach, htakes], by simp [hloop, TakesEach, htakes]⟩

end Store
