import Mathlib.Data.List.Infix

/-! # Sliding windows

At most `n` times are admitted in a window of a fixed length that ends at a time: a time is refused when the
window that ends at it is full. It is enough to keep the admitted times that were in the last window. -/

namespace SlidingWindow

/-- How many times lie in the window that ends at `t` (the times do not come after `t`). -/
def inWindow (length t : Nat) (times : List Nat) : Nat := times.countP fun s => t < s + length

def admitNext (length n : Nat) (admitted : List Nat) (t : Nat) : List Nat :=
  if inWindow length t admitted < n then admitted ++ [t] else admitted

def admitted (length n : Nat) (times : List Nat) : List Nat := times.foldl (admitNext length n) []

/-- Those of the times that lie in the window that ends at `t`. -/
def prune (length t : Nat) (kept : List Nat) : List Nat := kept.filter fun s => t - s < length

/-- Admits a time, and forgets the times before the window that ends at it. -/
def keep (length n : Nat) (kept : List Nat) (t : Nat) : List Nat :=
  if (prune length t kept).length < n then prune length t kept ++ [t] else prune length t kept

def kept (length n : Nat) (times : List Nat) : List Nat := times.foldl (keep length n) []

variable {length n t : Nat} {times : List Nat}

@[simp] theorem admitted_nil : admitted length n [] = [] := rfl

@[simp] theorem kept_nil : kept length n [] = [] := rfl

theorem admitted_concat : admitted length n (times ++ [t]) = admitNext length n (admitted length n times) t := by
  simp [admitted]

theorem kept_concat : kept length n (times ++ [t]) = keep length n (kept length n times) t := by
  simp [kept]

theorem mem_of_admitted {s : Nat} (h : s ∈ admitted length n times) : s ∈ times := by
  induction times using List.reverseRecOn with
  | nil => exact h
  | append_singleton times t ih =>
    rw [admitted_concat, admitNext] at h
    split at h
    · rcases List.mem_append.mp h with h | h
      · exact List.mem_append_left _ (ih h)
      · exact List.mem_append_right _ h
    · exact List.mem_append_left _ (ih h)

/-! ### The bound -/

/-- Admitted times that all lie within less than the length of a window are at most `n`. -/
theorem countP_admitted_le (p : Nat → Bool) (hclose : ∀ s t, p s → p t → t < s + length) :
    (admitted length n times).countP p ≤ n := by
  induction times using List.reverseRecOn with
  | nil => simp
  | append_singleton times t ih =>
    rw [admitted_concat, admitNext]
    split
    · rename_i hroom
      cases ht : p t with
      | false => simpa [List.countP_append, ht] using ih
      | true =>
        -- whatever is counted before `t` lies in the window that ends at `t`
        have hle : (admitted length n times).countP p ≤ inWindow length t (admitted length n times) :=
          List.countP_mono_left fun s _ hs => by simpa using hclose s t hs ht
        simp only [List.countP_append, List.countP_singleton, ht, if_true]
        omega
    · exact ih

/-! ### What is kept -/

theorem length_prune (h : ∀ s ∈ times, s ≤ t) : (prune length t times).length = inWindow length t times := by
  rw [prune, ← List.countP_eq_length_filter, inWindow]
  refine List.countP_congr fun s hs => ?_
  have := h s hs
  simp only [decide_eq_true_eq]
  omega

theorem prune_prune {s : Nat} (h : s ≤ t) : prune length t (prune length s times) = prune length t times := by
  rw [prune, prune, List.filter_filter]
  refine List.filter_congr fun r _ => ?_
  by_cases hr : t - r < length
  · have : s - r < length := by omega
    simp [hr, this]
  · simp [hr]

/-- Never more than `n` times are kept. -/
theorem length_kept_le : (kept length n times).length ≤ n := by
  induction times using List.reverseRecOn with
  | nil => simp
  | append_singleton times t ih =>
    have hprune : (prune length t (kept length n times)).length ≤ n := Nat.le_trans (List.length_filter_le ..) ih
    rw [kept_concat, keep]
    split
    · rw [List.length_append, List.length_singleton]
      omega
    · exact hprune

/-- In the window that ends at a time, the times that are kept are the admitted ones. -/
theorem prune_kept (hsorted : (times ++ [t]).Pairwise (· ≤ ·)) :
    prune length t (kept length n times) = prune length t (admitted length n times) := by
  induction times using List.reverseRecOn generalizing t with
  | nil => rfl
  | append_singleton times s ih =>
    obtain ⟨hbefore, -, hle⟩ := List.pairwise_append.mp hsorted
    have hst : s ≤ t := hle s (by simp) t (by simp)
    obtain ⟨-, -, hle'⟩ := List.pairwise_append.mp hbefore
    have hlen : (prune length s (admitted length n times)).length = inWindow length s (admitted length n times) :=
      length_prune fun r hr => hle' r (mem_of_admitted hr) s (by simp)
    rw [kept_concat, keep, admitted_concat, admitNext, ih hbefore, hlen]
    split
    · rw [prune, List.filter_append, ← prune, prune_prune hst, prune, prune, List.filter_append]
    · exact prune_prune hst

/-- A time is refused when as many times are kept as the window may hold. -/
theorem length_prune_kept (hsorted : (times ++ [t]).Pairwise (· ≤ ·)) :
    (prune length t (kept length n times)).length = inWindow length t (admitted length n times) := by
  obtain ⟨-, -, hle⟩ := List.pairwise_append.mp hsorted
  rw [prune_kept hsorted]
  exact length_prune fun r hr => hle r (mem_of_admitted hr) t (by simp)

/-- The window that ends at a time never holds more than `n` of the times before it. -/
theorem inWindow_admitted_le (hsorted : (times ++ [t]).Pairwise (· ≤ ·)) :
    inWindow length t (admitted length n times) ≤ n := by
  rw [← length_prune_kept hsorted]
  exact Nat.le_trans (List.length_filter_le ..) length_kept_le

end SlidingWindow
