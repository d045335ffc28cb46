import Djangors.Auth.LoginThrottle
import Djangors.Lib.SlidingWindow

/-! # Login throttling is a sliding window

The map keeps for each username the times of the attempts that were let through and are not older than the
window. Whether an attempt is rejected can be told from the attempts that have reached the backend inside. -/

namespace Djangors.Auth

section Attempts
variable (backend : RateLimitedBackend)

/-- The map after attempts. -/
def RateLimitedBackend.limiterAfter (attempts : List LoginAttempt) : Attempts :=
  attempts.foldl (fun limiter a => (backend.limitExceeded limiter a.now a.username).1) fun _ => []

/-- Attempts come before this one, which is rejected. -/
def RateLimitedBackend.Rejected (before : List LoginAttempt) (attempt : LoginAttempt) : Prop :=
  (backend.limitExceeded (backend.limiterAfter before) attempt.now attempt.username).2 = true

instance (before : List LoginAttempt) (attempt : LoginAttempt) : Decidable (backend.Rejected before attempt) :=
  inferInstanceAs (Decidable (_ = true))

/-- Those of the attempts that reach the backend inside, after the attempts before them. -/
def RateLimitedBackend.reachedAfter (before : List LoginAttempt) : List LoginAttempt → List LoginAttempt
  | [] => []
  | attempt :: attempts =>
    let later := reachedAfter (before ++ [attempt]) attempts
    if backend.Rejected before attempt then later else attempt :: later

def RateLimitedBackend.reached (attempts : List LoginAttempt) : List LoginAttempt := backend.reachedAfter [] attempts

def InOrder (attempts : List LoginAttempt) : Prop := attempts.Pairwise fun a b => a.now ≤ b.now

/-- How many of the attempts are for a username, at times with a property. -/
def attemptsFor (username : String) (p : Instant → Bool) (attempts : List LoginAttempt) : Nat :=
  attempts.countP fun a => a.username = username && p a.now

variable {χ U : Type} (inner : InnerBackend χ U) (inside : χ)

/-- What throttling promises for a sequence of attempts. -/
structure Throttled (attempts : List LoginAttempt) : Prop where
  /-- The backend inside sees the attempts that reach it, and no others. -/
  sees : (backend.after inner inside attempts).inside =
    (backend.reached attempts).foldl (fun inside a => (inner inside a.username a.password).1) inside
  /-- At most `max_attempts` of them for a username come in an interval of the length of the window. -/
  bounded : ∀ username start,
    attemptsFor username (fun t => start ≤ t ∧ t < start + backend.window.nanos) (backend.reached attempts) ≤
        backend.maxAttempts.toNat ∧
      attemptsFor username (fun t => start < t ∧ t ≤ start + backend.window.nanos) (backend.reached attempts) ≤
        backend.maxAttempts.toNat
  /-- An attempt is rejected when the window that ends at it is full. -/
  rejected : ∀ before attempt rest, attempts = before ++ attempt :: rest →
    (backend.Rejected before attempt ↔
      attemptsFor attempt.username (fun t => attempt.now < t + backend.window.nanos) (backend.reached before) =
        backend.maxAttempts.toNat)
  /-- An attempt that is rejected gets this answer, another one the answer of the backend inside. -/
  answers : ∀ before attempt rest, attempts = before ++ attempt :: rest →
    (backend.authenticate inner (backend.after inner inside before) attempt).2 =
      if backend.Rejected before attempt then .error .rateLimited
      else (inner (backend.after inner inside before).inside attempt.username attempt.password).2
  /-- Without an attempt that is rejected the same attempts reach the backend inside. -/
  unextended : ∀ before attempt rest, attempts = before ++ attempt :: rest → backend.Rejected before attempt →
    backend.reached (before ++ rest) = backend.reached attempts
  /-- The attempts for other usernames make no difference. -/
  separate : ∀ username, backend.reached (attempts.filter (·.username = username)) =
    (backend.reached attempts).filter (·.username = username)

end Attempts

section Limiter
variable {backend : RateLimitedBackend} {before attempts : List LoginAttempt} {attempt : LoginAttempt} {username : String}

/-- The times of the attempts for a username. -/
def timesOf (username : String) (attempts : List LoginAttempt) : List Instant :=
  (attempts.filter (·.username = username)).map (·.now)

@[simp] theorem timesOf_concat_self : timesOf attempt.username (attempts ++ [attempt]) =
    timesOf attempt.username attempts ++ [attempt.now] := by
  simp [timesOf]

theorem timesOf_concat_other (h : attempt.username ≠ username) :
    timesOf username (attempts ++ [attempt]) = timesOf username attempts := by
  simp [timesOf, h]

theorem attemptsFor_eq (p : Instant → Bool) : attemptsFor username p attempts = (timesOf username attempts).countP p := by
  rw [timesOf, List.countP_map, List.countP_filter, attemptsFor]
  exact List.countP_congr fun a _ => by simp [Bool.and_comm]

theorem limiterAfter_concat : backend.limiterAfter (attempts ++ [attempt]) =
    (backend.limitExceeded (backend.limiterAfter attempts) attempt.now attempt.username).1 := by
  simp [RateLimitedBackend.limiterAfter]

theorem reachedAfter_concat : backend.reachedAfter before (attempts ++ [attempt]) =
    backend.reachedAfter before attempts ++ if backend.Rejected (before ++ attempts) attempt then [] else [attempt] := by
  induction attempts generalizing before with
  | nil => by_cases h : backend.Rejected before attempt <;> simp [RateLimitedBackend.reachedAfter, h]
  | cons a attempts ih =>
    rw [List.cons_append, RateLimitedBackend.reachedAfter, RateLimitedBackend.reachedAfter, ih]
    split <;> simp

theorem reached_concat : backend.reached (attempts ++ [attempt]) =
    backend.reached attempts ++ if backend.Rejected attempts attempt then [] else [attempt] := by
  rw [RateLimitedBackend.reached, reachedAfter_concat]
  rfl

/-- As long as no more times are kept than are allowed, their number fits into 32 bits. -/
theorem maxAttempts_le_iff {kept : List Instant} (h : kept.length ≤ backend.maxAttempts.toNat) :
    backend.maxAttempts ≤ kept.length.toUInt32 ↔ ¬ kept.length < backend.maxAttempts.toNat := by
  have hlt := backend.maxAttempts.toNat_lt
  have hlen : kept.length.toUInt32.toNat = kept.length := by
    simp only [Nat.toUInt32, UInt32.toNat_ofNat']
    exact Nat.mod_eq_of_lt (by omega)
  rw [UInt32.le_iff_toNat_le, hlen]
  omega

/-- What the map keeps for a username depends on the attempts for that username. -/
theorem limiterAfter_eq : backend.limiterAfter attempts username =
    SlidingWindow.kept backend.window.nanos backend.maxAttempts.toNat (timesOf username attempts) := by
  induction attempts using List.reverseRecOn with
  | nil => rfl
  | append_singleton attempts attempt ih =>
    rw [limiterAfter_concat]
    by_cases hname : attempt.username = username
    · subst hname
      have hle : (SlidingWindow.prune backend.window.nanos attempt.now
          (SlidingWindow.kept backend.window.nanos backend.maxAttempts.toNat (timesOf attempt.username attempts))).length ≤
          backend.maxAttempts.toNat := Nat.le_trans (List.length_filter_le ..) SlidingWindow.length_kept_le
      have hiff := maxAttempts_le_iff hle
      rw [timesOf_concat_self, SlidingWindow.kept_concat, SlidingWindow.keep, RateLimitedBackend.limitExceeded, ih]
      rw [SlidingWindow.prune] at hiff ⊢
      split
      · rename_i hfull
        rw [if_neg (hiff.mp hfull)]
        exact Function.update_self ..
      · rename_i hroom
        rw [if_pos (not_not.mp fun h => hroom (hiff.mpr h))]
        exact Function.update_self ..
    · have hupdate (kept : List Instant) :
          Function.update (backend.limiterAfter attempts) attempt.username kept username =
            backend.limiterAfter attempts username := Function.update_of_ne (Ne.symm hname) ..
      rw [timesOf_concat_other hname, ← ih, RateLimitedBackend.limitExceeded]
      split <;> exact hupdate _

theorem rejected_iff : backend.Rejected attempts attempt ↔
    ¬ (SlidingWindow.prune backend.window.nanos attempt.now (SlidingWindow.kept backend.window.nanos
      backend.maxAttempts.toNat (timesOf attempt.username attempts))).length < backend.maxAttempts.toNat := by
  rw [RateLimitedBackend.Rejected, RateLimitedBackend.limitExceeded, limiterAfter_eq, SlidingWindow.prune,
    ← maxAttempts_le_iff (Nat.le_trans (List.length_filter_le ..) SlidingWindow.length_kept_le)]
  split <;> simp [*]

theorem inOrder_times (h : InOrder attempts) (username : String) : (timesOf username attempts).Pairwise (· ≤ ·) :=
  List.pairwise_map.mpr (List.Pairwise.filter _ h)

theorem InOrder.init (h : InOrder (attempts ++ [attempt])) : InOrder attempts := (List.pairwise_append.mp h).1

/-- The attempts that reach the backend inside are the ones that a sliding window admits. -/
theorem timesOf_reached (h : InOrder attempts) : timesOf username (backend.reached attempts) =
    SlidingWindow.admitted backend.window.nanos backend.maxAttempts.toNat (timesOf username attempts) := by
  induction attempts using List.reverseRecOn with
  | nil => rfl
  | append_singleton attempts attempt ih =>
    have hbefore := ih h.init
    rw [reached_concat]
    by_cases hname : attempt.username = username
    · subst hname
      have htimes := inOrder_times h attempt.username
      rw [timesOf_concat_self] at htimes ⊢
      rw [SlidingWindow.admitted_concat, SlidingWindow.admitNext, ← SlidingWindow.length_prune_kept htimes, ← hbefore]
      by_cases hfull : backend.Rejected attempts attempt
      · rw [if_pos hfull, List.append_nil, if_neg (rejected_iff.mp hfull)]
      · rw [if_neg hfull, timesOf_concat_self, if_pos (not_not.mp fun hroom => hfull (rejected_iff.mpr hroom))]
    · rw [timesOf_concat_other hname, ← hbefore]
      split
      · rw [List.append_nil]
      · exact timesOf_concat_other hname

/-- An attempt is rejected when the window that ends at it is full of attempts that got through. -/
theorem rejected_iff_full (h : InOrder (attempts ++ [attempt])) : backend.Rejected attempts attempt ↔
    attemptsFor attempt.username (fun t => attempt.now < t + backend.window.nanos) (backend.reached attempts) =
      backend.maxAttempts.toNat := by
  have htimes := inOrder_times h attempt.username
  rw [timesOf_concat_self] at htimes
  have hle : SlidingWindow.inWindow backend.window.nanos attempt.now (SlidingWindow.admitted backend.window.nanos
      backend.maxAttempts.toNat (timesOf attempt.username attempts)) ≤ backend.maxAttempts.toNat :=
    SlidingWindow.inWindow_admitted_le htimes
  rw [rejected_iff, SlidingWindow.length_prune_kept htimes, attemptsFor_eq, timesOf_reached h.init]
  rw [← SlidingWindow.inWindow]
  omega

theorem attemptsFor_reached_le (h : InOrder attempts) (p : Instant → Bool)
    (hclose : ∀ s t, p s → p t → t < s + backend.window.nanos) :
    attemptsFor username p (backend.reached attempts) ≤ backend.maxAttempts.toNat := by
  rw [attemptsFor_eq, timesOf_reached h]
  exact SlidingWindow.countP_admitted_le p hclose

theorem inOrder_sublist {some all : List LoginAttempt} (h : InOrder all) (hsub : some.Sublist all) : InOrder some :=
  List.Pairwise.sublist hsub h

theorem reached_without {rest : List LoginAttempt} (h : InOrder (before ++ attempt :: rest))
    (hrejected : backend.Rejected before attempt) :
    backend.reached (before ++ rest) = backend.reached (before ++ attempt :: rest) := by
  induction rest using List.reverseRecOn with
  | nil => rw [List.append_nil, reached_concat, if_pos hrejected, List.append_nil]
  | append_singleton rest a ih =>
    have hall : before ++ attempt :: (rest ++ [a]) = before ++ attempt :: rest ++ [a] := by simp
    have hwithout : before ++ (rest ++ [a]) = before ++ rest ++ [a] := by simp
    rw [hall] at h ⊢
    have hsub : (before ++ rest ++ [a]).Sublist (before ++ attempt :: rest ++ [a]) :=
      List.Sublist.append (List.Sublist.append (List.Sublist.refl _) (List.sublist_cons_self ..)) (List.Sublist.refl _)
    have hsame : backend.Rejected (before ++ rest) a ↔ backend.Rejected (before ++ attempt :: rest) a := by
      rw [rejected_iff_full h, rejected_iff_full (inOrder_sublist h hsub), ih h.init]
    rw [hwithout, reached_concat, reached_concat, ih h.init]
    simp only [hsame]

/-- Whether an attempt is rejected depends on the attempts for its username. -/
theorem rejected_filter : backend.Rejected (attempts.filter (·.username = attempt.username)) attempt ↔
    backend.Rejected attempts attempt := by
  rw [rejected_iff, rejected_iff, timesOf, List.filter_filter]
  simp [timesOf]

theorem reached_filter : backend.reached (attempts.filter (·.username = username)) =
    (backend.reached attempts).filter (·.username = username) := by
  induction attempts using List.reverseRecOn with
  | nil => rfl
  | append_singleton attempts attempt ih =>
    rw [reached_concat, List.filter_append, List.filter_append, ← ih]
    by_cases hname : attempt.username = username
    · subst hname
      rw [List.filter_singleton, decide_eq_true rfl, Bool.cond_true, reached_concat]
      simp only [rejected_filter]
      split <;> simp
    · rw [List.filter_singleton, decide_eq_false hname, Bool.cond_false, List.append_nil]
      split <;> simp [hname]

end Limiter

section Backend
variable {backend : RateLimitedBackend} {χ U : Type} {inner : InnerBackend χ U} {inside : χ}
  {attempts : List LoginAttempt} {attempt : LoginAttempt}

theorem after_concat : backend.after inner inside (attempts ++ [attempt]) =
    (backend.authenticate inner (backend.after inner inside attempts) attempt).1 := by
  simp [RateLimitedBackend.after]

/-- `authenticate` asks the backend inside when the attempt is not rejected. -/
theorem authenticate_limited (world : ThrottledWorld χ) : backend.authenticate inner world attempt =
    let limited := backend.limitExceeded world.limiter attempt.now attempt.username
    if limited.2 then
      (⟨limited.1, world.loginFailed ++ [attempt.username], world.inside⟩, .error .rateLimited)
    else
      let answered := inner world.inside attempt.username attempt.password
      (⟨limited.1, world.loginFailed, answered.1⟩, answered.2) := rfl

theorem limiter_after : (backend.after inner inside attempts).limiter = backend.limiterAfter attempts := by
  induction attempts using List.reverseRecOn with
  | nil => rfl
  | append_singleton attempts attempt ih =>
    rw [after_concat, limiterAfter_concat, authenticate_limited, ih]
    simp only
    split <;> rfl

theorem inside_after : (backend.after inner inside attempts).inside =
    (backend.reached attempts).foldl (fun inside a => (inner inside a.username a.password).1) inside := by
  induction attempts using List.reverseRecOn with
  | nil => rfl
  | append_singleton attempts attempt ih =>
    rw [after_concat, reached_concat, authenticate_limited, limiter_after, List.foldl_append, ← ih]
    simp only [RateLimitedBackend.Rejected]
    split <;> rename_i h <;> simp [h]

theorem authenticate_answer : (backend.authenticate inner (backend.after inner inside attempts) attempt).2 =
    if backend.Rejected attempts attempt then .error .rateLimited
    else (inner (backend.after inner inside attempts).inside attempt.username attempt.password).2 := by
  rw [authenticate_limited, limiter_after]
  simp only [RateLimitedBackend.Rejected]
  split <;> rename_i h <;> simp [h]

end Backend

/-- Logins are throttled by a sliding window for each username. -/
theorem logins_throttled {χ U : Type} (backend : RateLimitedBackend) (inner : InnerBackend χ U) (inside : χ)
    (attempts : List LoginAttempt) (inOrder : InOrder attempts) : Throttled backend inner inside attempts where
  sees := inside_after
  bounded username start := by
    constructor
    · refine attemptsFor_reached_le inOrder _ fun s t hs ht => ?_
      simp only [decide_eq_true_eq] at hs ht
      exact Nat.lt_of_lt_of_le ht.2 (Nat.add_le_add_right hs.1 _)
    · refine attemptsFor_reached_le inOrder _ fun s t hs ht => ?_
      simp only [decide_eq_true_eq] at hs ht
      exact Nat.lt_of_le_of_lt ht.2 (Nat.add_lt_add_right hs.1 _)
  rejected before attempt rest heq := by
    have hsub : (before ++ [attempt]).Sublist attempts := by simp [heq]
    exact rejected_iff_full (inOrder_sublist inOrder hsub)
  answers before attempt rest _ := authenticate_answer
  unextended before attempt rest heq hrejected := by
    rw [heq] at inOrder ⊢
    exact reached_without inOrder hrejected
  separate username := reached_filter

/-! ### Six attempts in a minute -/

def guesses : List LoginAttempt := (List.range 6).map fun i => ⟨10 * 10 ^ 9 * i, "alice", "guess"⟩

theorem guesses_throttled : Throttled (χ := Nat) (U := User) .defaultLoginThrottle (fun n _ _ => (n + 1, .ok none)) 0 guesses :=
  logins_throttled _ _ _ _ (by simp [InOrder, guesses, List.range, List.range.loop])

end Djangors.Auth
