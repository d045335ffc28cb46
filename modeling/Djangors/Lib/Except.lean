import Mathlib.Data.List.Forall2

/-! # Computations that can fail

When a bind, a fold or a traversal in `Except` and `Option` succeeds. -/

namespace Except

theorem bind_eq_ok {ε α β : Type} {x : Except ε α} {f : α → Except ε β} {b : β} :
    (x >>= f) = .ok b ↔ ∃ a, x = .ok a ∧ f a = .ok b := by
  cases x with
  | error e => simp [bind, Except.bind]
  | ok a => simp [bind, Except.bind]

theorem map_eq_ok {ε α β : Type} {x : Except ε α} {f : α → β} {b : β} (h : x.map f = .ok b) : ∃ a, x = .ok a ∧ f a = b := by
  cases x with
  | error e => cases h
  | ok a => exact ⟨a, rfl, Except.ok.inj h⟩

theorem mapError_eq_ok {ε ε' α : Type} {x : Except ε α} {f : ε → ε'} {a : α} : x.mapError f = .ok a ↔ x = .ok a := by
  cases x <;> simp [Except.mapError]

/-- A traversal succeeds when every element does. -/
theorem mapM_eq_ok {ε α β : Type} {f : α → Except ε β} {xs : List α} {ys : List β} :
    xs.mapM f = .ok ys ↔ List.Forall₂ (fun x y => f x = .ok y) xs ys := by
  induction xs generalizing ys with
  | nil => cases ys <;> simp [pure, Except.pure]
  | cons x xs ih =>
    rw [List.mapM_cons, bind_eq_ok]
    constructor
    · rintro ⟨y, hy, h⟩
      obtain ⟨ys', hys, h⟩ := bind_eq_ok.mp h
      cases h
      exact .cons hy (ih.mp hys)
    · rintro (_ | ⟨hy, hys⟩)
      exact ⟨_, hy, bind_eq_ok.mpr ⟨_, ih.mpr hys, rfl⟩⟩

section Traversal
variable {ε α β : Type} {f g : α → Except ε β} {xs : List α} {ys : List β}

theorem mapM_congr (h : ∀ x ∈ xs, f x = g x) : xs.mapM f = xs.mapM g := by
  induction xs with
  | nil => rfl
  | cons x xs ih => rw [List.mapM_cons, List.mapM_cons, h x (by simp), ih fun x hx => h x (by simp [hx])]

theorem mapM_isOk : (∃ ys, xs.mapM f = .ok ys) ↔ ∀ x ∈ xs, ∃ y, f x = .ok y := by
  induction xs with
  | nil => simp [pure, Except.pure]
  | cons x xs ih =>
    simp only [List.forall_mem_cons, ← ih, mapM_eq_ok]
    constructor
    · rintro ⟨_, _ | ⟨hy, hys⟩⟩
      exact ⟨⟨_, hy⟩, _, hys⟩
    · rintro ⟨⟨y, hy⟩, ys, hys⟩
      exact ⟨y :: ys, .cons hy hys⟩

/-- Each result of a traversal that succeeds comes from an element. -/
theorem exists_of_mem_mapM (h : xs.mapM f = .ok ys) {y : β} (hy : y ∈ ys) : ∃ x ∈ xs, f x = .ok y := by
  induction mapM_eq_ok.mp h with
  | nil => cases hy
  | cons hab hs ih =>
    rcases List.mem_cons.mp hy with rfl | hy
    · exact ⟨_, by simp, hab⟩
    · obtain ⟨x, hx, hxy⟩ := ih (mapM_eq_ok.mpr hs) hy
      exact ⟨x, by simp [hx], hxy⟩

theorem exists_mapM_of_mem (h : xs.mapM f = .ok ys) {x : α} (hx : x ∈ xs) : ∃ y ∈ ys, f x = .ok y := by
  induction mapM_eq_ok.mp h with
  | nil => cases hx
  | cons hab hs ih =>
    rcases List.mem_cons.mp hx with rfl | hx
    · exact ⟨_, by simp, hab⟩
    · obtain ⟨y, hy, hxy⟩ := ih (mapM_eq_ok.mpr hs) hx
      exact ⟨y, by simp [hy], hxy⟩

/-- The images of the results of a traversal that succeeds, when each is that of its element. -/
theorem map_mapM {γ : Type} {k : β → γ} {g : α → γ} (h : xs.mapM f = .ok ys)
    (image : ∀ x ∈ xs, ∀ y, f x = .ok y → k y = g x) : ys.map k = xs.map g := by
  induction mapM_eq_ok.mp h with
  | nil => rfl
  | cons hy hys ih =>
    rw [List.map_cons, List.map_cons, image _ (by simp) _ hy, ih (mapM_eq_ok.mpr hys) fun x hx => image x (by simp [hx])]

/-- A traversal that succeeds maps its elements, when each success is the image of its element. -/
theorem mapM_eq_map {g : α → β} (h : xs.mapM f = .ok ys) (image : ∀ x ∈ xs, ∀ y, f x = .ok y → y = g x) :
    ys = xs.map g := by
  rw [← map_mapM (k := id) h image, List.map_id]

end Traversal

section Fold
variable {ε α σ : Type} {f f' : σ → α → Except ε σ} {as : List α} {s s' : σ} {P : σ → Prop}

/-- What each step of a fold preserves holds at its end. -/
theorem foldlM_induct (h : as.foldlM f s = .ok s') (start : P s)
    (step : ∀ a ∈ as, ∀ t t', P t → f t a = .ok t' → P t') : P s' := by
  induction as generalizing s with
  | nil =>
    cases h
    exact start
  | cons a as ih =>
    rw [List.foldlM_cons] at h
    obtain ⟨t, ht, h⟩ := bind_eq_ok.mp h
    exact ih h (step a (by simp) s t start ht) fun a ha => step a (by simp [ha])

/-- A fold that succeeds takes a step for each element. -/
theorem foldlM_step (h : as.foldlM f s = .ok s') (start : P s)
    (step : ∀ a ∈ as, ∀ t t', P t → f t a = .ok t' → P t') : ∀ a ∈ as, ∃ t t', P t ∧ f t a = .ok t' := by
  induction as generalizing s with
  | nil => simp
  | cons b as ih =>
    rw [List.foldlM_cons] at h
    obtain ⟨t, ht, h⟩ := bind_eq_ok.mp h
    intro a ha
    rcases List.mem_cons.mp ha with rfl | ha
    · exact ⟨s, t, start, ht⟩
    · exact ih h (step b (by simp) s t start ht) (fun a ha => step a (by simp [ha])) a ha

theorem foldlM_ok (start : P s) (step : ∀ a ∈ as, ∀ t, P t → ∃ t', f t a = .ok t' ∧ P t') :
    ∃ s', as.foldlM f s = .ok s' ∧ P s' := by
  induction as generalizing s with
  | nil => exact ⟨s, rfl, start⟩
  | cons a as ih =>
    obtain ⟨t, ht, hP⟩ := step a (by simp) s start
    obtain ⟨s', hs', hP'⟩ := ih hP fun a ha => step a (by simp [ha])
    exact ⟨s', by rw [List.foldlM_cons, ht]; exact hs', hP'⟩

/-- When success is up to the elements alone, a fold succeeds if each of its elements does. -/
theorem foldlM_isOk {Q : α → Prop} (step : ∀ t a, (∃ t', f t a = .ok t') ↔ Q a) :
    (∃ s', as.foldlM f s = .ok s') ↔ ∀ a ∈ as, Q a := by
  constructor
  · rintro ⟨s', h⟩ a ha
    obtain ⟨t, t', -, ht⟩ := foldlM_step (P := fun _ => True) h trivial (fun _ _ _ _ _ _ => trivial) a ha
    exact (step t a).mp ⟨t', ht⟩
  · intro h
    obtain ⟨s', hs', -⟩ := foldlM_ok (f := f) (s := s) (P := fun _ => True) trivial fun a ha t _ =>
      ((step t a).mpr (h a ha)).imp fun t' ht' => ⟨ht', trivial⟩
    exact ⟨s', hs'⟩

theorem foldlM_congr (start : P s) (same : ∀ a ∈ as, ∀ t, P t → f t a = f' t a)
    (step : ∀ a ∈ as, ∀ t t', P t → f t a = .ok t' → P t') : as.foldlM f s = as.foldlM f' s := by
  induction as generalizing s with
  | nil => rfl
  | cons a as ih =>
    rw [List.foldlM_cons, List.foldlM_cons, ← same a (by simp) s start]
    cases h : f s a with
    | error e => rfl
    | ok t =>
      exact ih (step a (by simp) s t start h) (fun a ha => same a (by simp [ha])) fun a ha => step a (by simp [ha])

end Fold

end Except

namespace Option

theorem mapM_eq_some {α β : Type} {f : α → Option β} {xs : List α} {ys : List β} :
    xs.mapM f = some ys ↔ List.Forall₂ (fun x y => f x = some y) xs ys := by
  induction xs generalizing ys with
  | nil => cases ys <;> simp
  | cons x xs ih =>
    simp only [List.mapM_cons, Option.bind_eq_bind, Option.bind_eq_some_iff, Option.pure_def, Option.some.injEq]
    constructor
    · rintro ⟨y, hy, ys', hys, rfl⟩
      exact .cons hy (ih.mp hys)
    · rintro (_ | ⟨hy, hys⟩)
      exact ⟨_, hy, _, ih.mpr hys, rfl⟩

/-- A traversal that succeeds maps its elements by a total function. -/
theorem exists_map_of_mapM {α β : Type} [Inhabited β] {f : α → Option β} {xs : List α} {ys : List β}
    (h : xs.mapM f = some ys) : ∃ g : α → β, (∀ x ∈ xs, f x = some (g x)) ∧ ys = xs.map g := by
  refine ⟨fun x => (f x).getD default, ?_⟩
  induction mapM_eq_some.mp h with
  | nil => simp
  | cons hy _ ih =>
    rename_i xs' ys' hys
    obtain ⟨h₁, h₂⟩ := ih (mapM_eq_some.mpr hys)
    exact ⟨by simpa [hy] using h₁, by simp [hy, ← h₂]⟩

end Option
