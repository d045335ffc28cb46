import Mathlib.Data.List.Infix

/-! # Fixed windows

What is counted at a time when no window is open opens one, and a window stays open for a fixed length. What is counted
only while fewer than `n` are counted in the window at hand is counted at most `n` times in each window. -/

namespace FixedWindow

/-- The window at hand at a time: the one opened last, if it is still open, or a new one. -/
def windowAt (length : Nat) (opened : Option Nat) (t : Nat) : Nat := (opened.filter fun w => t < w + length).getD t

/-- The window opened last. -/
def opened (length : Nat) (times : List Nat) : Option Nat :=
  times.foldl (fun opened t => some (windowAt length opened t)) none

def inWindow (length w : Nat) (times : List Nat) : Nat := times.countP fun t => w ≤ t ∧ t < w + length

/-- A window that is opened at one of the times. -/
def IsWindow (length : Nat) (times : List Nat) (w : Nat) : Prop := ∃ earlier, earlier <+: times ∧ opened length earlier = some w

/-- What is counted in the window opened last, with the window. -/
def counter (length : Nat) (times : List Nat) : Option (Nat × Nat) :=
  (opened length times).map fun w => (inWindow length w times, w)

variable {length n w o t : Nat} {times : List Nat}

@[simp] theorem opened_nil : opened length [] = none := rfl

@[simp] theorem opened_concat : opened length (times ++ [t]) = some (windowAt length (opened length times) t) := by
  simp [opened]

theorem opened_eq_none : opened length times = none ↔ times = [] := by
  rcases times.eq_nil_or_concat with rfl | ⟨times, t, rfl⟩ <;> simp

@[simp] theorem inWindow_concat :
    inWindow length w (times ++ [t]) = inWindow length w times + if w ≤ t ∧ t < w + length then 1 else 0 := by
  simp [inWindow, List.countP_append, List.countP_singleton]

theorem isWindow_concat :
    IsWindow length (times ++ [t]) w ↔ IsWindow length times w ∨ windowAt length (opened length times) t = w := by
  constructor
  · rintro ⟨earlier, hearlier, hw⟩
    rcases List.prefix_concat_iff.mp hearlier with rfl | hearlier
    · exact .inr (by simpa using hw)
    · exact .inl ⟨earlier, hearlier, hw⟩
  · rintro (⟨earlier, hearlier, hw⟩ | hw)
    · exact ⟨earlier, hearlier.trans (List.prefix_append ..), hw⟩
    · exact ⟨_, List.prefix_rfl, by simpa using hw⟩

theorem windowAt_cases (length : Nat) (opened : Option Nat) (t : Nat) :
    (∃ w, opened = some w ∧ t < w + length ∧ windowAt length opened t = w) ∨
      (∀ w, opened = some w → w + length ≤ t) ∧ windowAt length opened t = t := by
  cases opened with
  | none => exact .inr ⟨by simp, rfl⟩
  | some w =>
    by_cases hopen : t < w + length
    · exact .inl ⟨w, rfl, hopen, by simp [windowAt, Option.filter_some, hopen]⟩
    · refine .inr ⟨?_, by simp [windowAt, Option.filter_some, hopen]⟩
      rintro _ ⟨⟩
      omega

theorem lt_windowAt_add (hlength : 0 < length) : t < windowAt length (opened length times) t + length := by
  rcases windowAt_cases length (opened length times) t with ⟨w, -, hlt, heq⟩ | ⟨-, heq⟩ <;> rw [heq] <;> omega

/-- The window opened last has begun, and the times do not go beyond it. -/
theorem within_opened (hlength : 0 < length) (hsorted : times.Pairwise (· ≤ ·)) (ho : opened length times = some o) :
    o ∈ times ∧ ∀ t ∈ times, t < o + length := by
  induction times using List.reverseRecOn generalizing o with
  | nil => cases ho
  | append_singleton times t ih =>
    obtain ⟨hbefore, -, hle⟩ := List.pairwise_append.mp hsorted
    rw [opened_concat, Option.some.injEq] at ho
    subst ho
    rcases windowAt_cases length (opened length times) t with ⟨w, hw, hlt, heq⟩ | ⟨hover, heq⟩
    · obtain ⟨hmem, hall⟩ := ih hbefore hw
      rw [heq]
      exact ⟨by simp [hmem], by simpa [or_imp, forall_and, hlt] using hall⟩
    · rw [heq]
      refine ⟨by simp, fun t' ht' => ?_⟩
      rcases List.mem_append.mp ht' with ht' | ht'
      · exact Nat.lt_of_le_of_lt (hle t' ht' t (by simp)) (Nat.lt_add_of_pos_right hlength)
      · rw [List.mem_singleton.mp ht']
        exact Nat.lt_add_of_pos_right hlength

/-- An earlier window is over when the last one opens. -/
theorem isWindow_eq_or_over (hlength : 0 < length) (hsorted : times.Pairwise (· ≤ ·)) (hw : IsWindow length times w)
    (ho : opened length times = some o) : w = o ∨ w + length ≤ o := by
  induction times using List.reverseRecOn generalizing o with
  | nil => cases ho
  | append_singleton times t ih =>
    have hbefore := (List.pairwise_append.mp hsorted).1
    rw [opened_concat, Option.some.injEq] at ho
    rcases isWindow_concat.mp hw with hw | hw
    · rcases windowAt_cases length (opened length times) t with ⟨w', hw', hlt, heq⟩ | ⟨hover, heq⟩
      · rw [← ho, heq]
        exact ih hbefore hw hw'
      · obtain ⟨earlier, hearlier, hopened⟩ := id hw
        cases hlast : opened length times with
        | none =>
          rw [opened_eq_none.mp hlast, List.prefix_nil] at hearlier
          rw [hearlier] at hopened
          cases hopened
        | some w' =>
          have hstarted := hover w' hlast
          rcases ih hbefore hw hlast with rfl | hpast <;> omega
    · exact .inl (hw.symm.trans ho)

/-- The counter of a window that is open, or a new one, says what is counted in the window at hand. -/
theorem counter_at (hlength : 0 < length) (hsorted : times.Pairwise (· ≤ ·)) (t : Nat) :
    ((counter length times).filter fun c => t < c.2 + length).getD (0, t) =
      (inWindow length (windowAt length (opened length times) t) times, windowAt length (opened length times) t) := by
  rcases windowAt_cases length (opened length times) t with ⟨w, hw, hlt, heq⟩ | ⟨hover, heq⟩
  · simp [counter, hw, hlt, windowAt, Option.filter_some]
  · rw [heq]
    have hnone : inWindow length t times = 0 := by
      rw [inWindow, List.countP_eq_zero]
      intro t' ht'
      cases hlast : opened length times with
      | none =>
        rw [opened_eq_none.mp hlast] at ht'
        cases ht'
      | some w =>
        have hover := hover w hlast
        have hin := (within_opened hlength hsorted hlast).2 t' ht'
        simp only [decide_eq_true_eq]
        omega
    rw [hnone]
    cases hlast : opened length times with
    | none => simp [counter, hlast]
    | some w => simp [counter, hlast, Option.filter_some, Nat.not_lt.mpr (hover w hlast)]

theorem windowAt_le (hlength : 0 < length) (hsorted : times.Pairwise (· ≤ ·)) (hle : ∀ t' ∈ times, t' ≤ t) :
    windowAt length (opened length times) t ≤ t := by
  rcases windowAt_cases length (opened length times) t with ⟨w, hw, -, heq⟩ | ⟨-, heq⟩
  · rw [heq]
    exact hle w (within_opened hlength hsorted hw).1
  · exact heq.le

/-- What is counted next is counted in the window at hand. -/
theorem counter_concat (hle : ∀ t' ∈ times, t' ≤ t) (hlength : 0 < length) (hsorted : times.Pairwise (· ≤ ·)) :
    counter length (times ++ [t]) =
      some (inWindow length (windowAt length (opened length times) t) times + 1, windowAt length (opened length times) t) := by
  have hlt : t < windowAt length (opened length times) t + length := lt_windowAt_add hlength
  simp [counter, hlt, windowAt_le hlength hsorted hle]

/-- Each time is counted while fewer than `n` are counted in the window at hand. -/
inductive Limited (length n : Nat) : List Nat → Prop
  | nil : Limited length n []
  | concat {times : List Nat} {t : Nat} (earlier : Limited length n times)
      (below : inWindow length (windowAt length (opened length times) t) times < n) : Limited length n (times ++ [t])

/-- By induction on the times: a time in an earlier window would be before the last one opened. -/
theorem Limited.inWindow_le (h : Limited length n times) (hlength : 0 < length) (hsorted : times.Pairwise (· ≤ ·))
    (hw : IsWindow length times w) : inWindow length w times ≤ n := by
  induction h generalizing w with
  | nil => simp [inWindow]
  | @concat times t _ below ih =>
    obtain ⟨hbefore, -, hle⟩ := List.pairwise_append.mp hsorted
    rw [inWindow_concat]
    by_cases hat : windowAt length (opened length times) t = w
    · rw [hat] at below
      split <;> omega
    · have hw := (isWindow_concat.mp hw).resolve_right hat
      have hout : ¬(w ≤ t ∧ t < w + length) := by
        rintro ⟨-, hlt⟩
        obtain ⟨earlier, hearlier, hopened⟩ := id hw
        cases hlast : opened length times with
        | none =>
          rw [opened_eq_none.mp hlast, List.prefix_nil] at hearlier
          rw [hearlier] at hopened
          cases hopened
        | some o =>
          have hstarted := hle o (within_opened hlength hbefore hlast).1 t (by simp)
          rcases isWindow_eq_or_over hlength hbefore hw hlast with rfl | hover
          · exact hat (by simp [windowAt, hlast, hlt, Option.filter_some])
          · omega
      rw [if_neg hout]
      exact ih hbefore hw

/-- Windows do not overlap. -/
theorem isWindow_apart {w' : Nat} (hlength : 0 < length) (hsorted : times.Pairwise (· ≤ ·)) (hw : IsWindow length times w)
    (hw' : IsWindow length times w') (hlt : w < w') : w + length ≤ w' := by
  obtain ⟨earlier, hearlier, hopened⟩ := id hw
  obtain ⟨earlier', hearlier', hopened'⟩ := id hw'
  rcases List.prefix_or_prefix_of_prefix hearlier hearlier' with hpre | hpre
  · rcases isWindow_eq_or_over hlength (hsorted.sublist hearlier'.sublist) ⟨earlier, hpre, hopened⟩ hopened' with heq | hover
    · omega
    · exact hover
  · rcases isWindow_eq_or_over hlength (hsorted.sublist hearlier.sublist) ⟨earlier', hpre, hopened'⟩ hopened with heq | hover
      <;> omega

/-- Each time is in a window. -/
theorem exists_isWindow (hlength : 0 < length) (hsorted : times.Pairwise (· ≤ ·)) (ht : t ∈ times) :
    ∃ w, IsWindow length times w ∧ w ≤ t ∧ t < w + length := by
  obtain ⟨earlier, later, rfl⟩ := List.append_of_mem ht
  obtain ⟨hbefore, -, hle⟩ := List.pairwise_append.mp hsorted
  refine ⟨windowAt length (opened length earlier) t, ⟨earlier ++ [t], by simp, opened_concat⟩, ?_, lt_windowAt_add hlength⟩
  exact windowAt_le hlength hbefore fun t' ht' => hle t' ht' t (by simp)

/-! ### Another unit of time -/

section Scale
variable {k : Nat}

theorem windowAt_mul (hk : 0 < k) (o : Option Nat) (t : Nat) :
    windowAt (k * length) (o.map (k * ·)) (k * t) = k * windowAt length o t := by
  cases o with
  | none => rfl
  | some w =>
    have hopen : k * t < k * w + k * length ↔ t < w + length := by rw [← Nat.mul_add, Nat.mul_lt_mul_left hk]
    by_cases h : t < w + length <;> simp [windowAt, Option.filter_some, hopen, h]

theorem opened_mul (hk : 0 < k) (times : List Nat) :
    opened (k * length) (times.map (k * ·)) = (opened length times).map (k * ·) := by
  induction times using List.reverseRecOn with
  | nil => rfl
  | append_singleton times t ih =>
    rw [List.map_append, List.map_singleton, opened_concat, opened_concat, ih, windowAt_mul hk, Option.map_some]

theorem inWindow_mul (hk : 0 < k) (w : Nat) (times : List Nat) :
    inWindow (k * length) (k * w) (times.map (k * ·)) = inWindow length w times := by
  rw [inWindow, List.countP_map, inWindow]
  congr 1
  funext t
  rw [Function.comp_apply, decide_eq_decide, ← Nat.mul_add, Nat.mul_lt_mul_left hk, Nat.mul_le_mul_left_iff hk]

end Scale

end FixedWindow
