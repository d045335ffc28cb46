import Djangors.Theorems.ThrottledRoutes

/-! # Limiters that share a cache

Each limiter counts each identity in fixed windows, as long as no two limiters write the counter of one key: the name of a
limiter may end where the identity of another begins. -/

namespace Djangors.Rest
open Http Orm FixedWindow

/-! ### A cache with expiry -/

/-- A cache that never fails, keeps an entry for its time to live and no longer, and keeps the others. -/
structure CacheBackend.TtlMap (C : CacheBackend) : Prop where
  get_eq : ∀ t key s, ∃ s', C.get t key s = (s', .ok (C.entry s t key)) ∧
    ∀ t' key', t ≤ t' → C.entry s' t' key' = C.entry s t' key'
  set_eq : ∀ t key value ttl s, ∃ s', C.set t key value ttl s = (s', .ok ()) ∧
    (∀ t', t ≤ t' → C.entry s' t' key = if t' < t + ttl then some value else none) ∧
    ∀ t' key', t ≤ t' → key' ≠ key → C.entry s' t' key' = C.entry s t' key'

section Count
variable [CounterJson] [Fmt] {m : Model} {B : Backend m}

/-- What a check finds, answers and leaves. -/
theorem count_ttl (ttl : B.cache.TtlMap) (limiter : RateLimiter) (identity : String) (w : World B.cache)
    {state : Option (Nat × Nat)}
    (hstate : (B.cache.entry w.cache w.nanos (limiter.counterKey identity)).mapM CounterJson.decode = .ok state) :
    ∃ w' result, (limiter.count identity).eval (exec B) w = (w', result) ∧ w'.nanos = w.nanos ∧
      (limiter.maxAttempts ≤ (limiter.counterAt (w.nanos / 1000000) state).1 ∧ (∃ e, result = .error e) ∧
          (∀ t key, w.nanos ≤ t → B.cache.entry w'.cache t key = B.cache.entry w.cache t key) ∨
        (limiter.counterAt (w.nanos / 1000000) state).1 < limiter.maxAttempts ∧ result = .ok () ∧
          (∀ t, w.nanos ≤ t → B.cache.entry w'.cache t (limiter.counterKey identity) =
            if t < w.nanos + limiter.window then
              some (CounterJson.encode ((limiter.counterAt (w.nanos / 1000000) state).1 + 1,
                (limiter.counterAt (w.nanos / 1000000) state).2))
            else none) ∧
          ∀ t key, w.nanos ≤ t → key ≠ limiter.counterKey identity →
            B.cache.entry w'.cache t key = B.cache.entry w.cache t key) := by
  obtain ⟨cache, hget, hkept⟩ := ttl.get_eq w.nanos (limiter.counterKey identity) w.cache
  have hstart : (limiter.count identity).eval (exec B) w =
      Fallible.eval (exec B) (do
        let stored : Option (List UInt8) ← orInternal (B.cache.get w.nanos (limiter.counterKey identity) w.cache).2
        let state ← orInternal (stored.mapM CounterJson.decode)
        if limiter.maxAttempts ≤ (limiter.counterAt (w.nanos / 1000000) state).1 then
          fail (.tooManyRequests "rate limit exceeded".toList)
        else do
          let stored ← ask (.cacheSet (limiter.counterKey identity)
            (CounterJson.encode ((limiter.counterAt (w.nanos / 1000000) state).1 + 1,
              (limiter.counterAt (w.nanos / 1000000) state).2)) limiter.window)
          orInternal stored) { w with cache := (B.cache.get w.nanos (limiter.counterKey identity) w.cache).1 } := rfl
  rw [hget, Fallible.eval_bind_ok rfl, hstate, Fallible.eval_bind_ok rfl] at hstart
  by_cases hlimit : limiter.maxAttempts ≤ (limiter.counterAt (w.nanos / 1000000) state).1
  · rw [if_pos hlimit] at hstart
    exact ⟨_, _, hstart, rfl, .inl ⟨hlimit, ⟨_, rfl⟩, hkept⟩⟩
  · rw [if_neg hlimit] at hstart
    obtain ⟨cache', hset, hentry, hothers⟩ := ttl.set_eq w.nanos (limiter.counterKey identity)
      (CounterJson.encode ((limiter.counterAt (w.nanos / 1000000) state).1 + 1,
        (limiter.counterAt (w.nanos / 1000000) state).2)) limiter.window cache
    have hstored : Fallible.eval (exec B) (ask (.cacheSet (limiter.counterKey identity)
        (CounterJson.encode ((limiter.counterAt (w.nanos / 1000000) state).1 + 1,
          (limiter.counterAt (w.nanos / 1000000) state).2)) limiter.window)) { w with cache } =
          ({ w with cache := cache', counted := w.counted ++ [limiter.counterKey identity] }, .ok (.ok ())) := by
      simp [ask, exec, hset]
    rw [Fallible.eval_bind_ok hstored] at hstart
    refine ⟨_, _, hstart, rfl, .inr ⟨Nat.not_le.mp hlimit, rfl, hentry, fun t key ht hkey => ?_⟩⟩
    exact (hothers t key ht hkey).trans (hkept t key ht)

end Count

/-! ### Runs of checks -/

/-- A check of an identity by a limiter, at a time. -/
structure Check where
  limiter : RateLimiter
  identity : String
  nanos : Nat

/-- What the clock of the limiter shows. -/
def Check.millis (c : Check) : Nat := c.nanos / 1000000

def Check.key (c : Check) : String := c.limiter.counterKey c.identity

section Runs

/-- The checks of one limiter and identity that have been admitted, by the clock in milliseconds. -/
def admittedTimes (c : Check) (before : List (Check × Bool)) : List Nat :=
  (before.filter fun p => p.1.limiter.name == c.limiter.name && p.1.identity == c.identity && p.2).map (·.1.millis)

/-- In nanoseconds by the same clock: fewer than the limit have been admitted in the window at hand. -/
def Check.Below (c : Check) (before : List (Check × Bool)) : Prop :=
  let times := (admittedTimes c before).map (1000000 * ·)
  inWindow c.limiter.window (windowAt c.limiter.window (opened c.limiter.window times) (1000000 * c.millis)) times <
    c.limiter.maxAttempts

theorem below_iff {c : Check} (whole : c.limiter.window = 1000000 * c.limiter.length) (before : List (Check × Bool)) :
    c.Below before ↔ inWindow c.limiter.length (windowAt c.limiter.length
      (opened c.limiter.length (admittedTimes c before)) c.millis) (admittedTimes c before) < c.limiter.maxAttempts := by
  rw [Check.Below, whole, opened_mul (by omega), windowAt_mul (by omega), inWindow_mul (by omega)]

theorem admittedTimes_refused (c c' : Check) (before : List (Check × Bool)) :
    admittedTimes c (before ++ [(c', false)]) = admittedTimes c before := by
  simp [admittedTimes]

theorem admittedTimes_admitted (c c' : Check) (before : List (Check × Bool)) :
    admittedTimes c (before ++ [(c', true)]) =
      if c'.limiter.name = c.limiter.name ∧ c'.identity = c.identity then admittedTimes c before ++ [c'.millis]
      else admittedTimes c before := by
  by_cases h : c'.limiter.name = c.limiter.name ∧ c'.identity = c.identity
  · rw [if_pos h]
    simp [admittedTimes, List.filter_append, h]
  · rw [if_neg h, admittedTimes, List.filter_append]
    have hnil : [(c', true)].filter (fun p => p.1.limiter.name == c.limiter.name && p.1.identity == c.identity && p.2) = [] := by
      rw [List.filter_eq_nil_iff]
      simpa using h
    rw [hnil, List.append_nil]
    rfl

/-- Limiters with pairwise distinct names, and checks by them. -/
structure Registered (limiters : List RateLimiter) (checks : List Check) : Prop where
  names : (limiters.map (·.name)).Nodup
  known : ∀ c ∈ checks, c.limiter ∈ limiters

/-- Windows are whole milliseconds, and no two limiters write one counter. -/
structure Separate (checks : List Check) : Prop where
  whole : ∀ c ∈ checks, c.limiter.window = 1000000 * c.limiter.length
  apart : ∀ c ∈ checks, ∀ c' ∈ checks, c.key = c'.key → c.limiter.name = c'.limiter.name

variable {limiters : List RateLimiter} {checks : List Check}

theorem Registered.limiter_eq (h : Registered limiters checks) {c c' : Check} (hc : c ∈ checks) (hc' : c' ∈ checks)
    (hname : c.limiter.name = c'.limiter.name) : c.limiter = c'.limiter :=
  List.inj_on_of_nodup_map h.names (h.known c hc) (h.known c' hc') hname

theorem Registered.same (h : Registered limiters checks) (separate : Separate checks) {c c' : Check} (hc : c ∈ checks)
    (hc' : c' ∈ checks) (hkey : c.key = c'.key) : c.limiter = c'.limiter ∧ c.identity = c'.identity := by
  have hlimiter := h.limiter_eq hc hc' (separate.apart c hc c' hc' hkey)
  rw [Check.key, Check.key, hlimiter] at hkey
  exact ⟨hlimiter, counterKey_injective c'.limiter hkey⟩

variable [CounterJson] {m : Model} {B : Backend m}

/-- The cache holds the counter of one limiter and identity, until its window is over. -/
structure Tracked (limiter : RateLimiter) (i : String) (w : World B.cache) (times : List Nat) : Prop where
  sorted : times.Pairwise (· ≤ ·)
  past : ∀ t ∈ times, t ≤ w.nanos / 1000000
  entries : 0 < limiter.length → ∀ t, w.nanos ≤ t →
    B.cache.entry w.cache t (limiter.counterKey i) = (counter limiter.length times).map CounterJson.encode ∨
    B.cache.entry w.cache t (limiter.counterKey i) = none ∧
      ∀ c, counter limiter.length times = some c → c.2 + limiter.length ≤ t / 1000000
  empty : limiter.window = 0 → ∀ t, w.nanos ≤ t → B.cache.entry w.cache t (limiter.counterKey i) = none

variable {limiter : RateLimiter} {i : String} {w : World B.cache} {times : List Nat} {nanos : Nat}

/-- A check finds what is counted in the window at hand. -/
theorem Tracked.counterAt [LawfulCounterJson] (h : Tracked limiter i w times) (whole : limiter.window = 1000000 * limiter.length)
    (hnanos : w.nanos ≤ nanos) :
    ∃ state, (B.cache.entry w.cache nanos (limiter.counterKey i)).mapM CounterJson.decode = .ok state ∧
      (limiter.counterAt (nanos / 1000000) state).1 =
        inWindow limiter.length (windowAt limiter.length (opened limiter.length times) (nanos / 1000000)) times ∧
      (0 < limiter.length → (limiter.counterAt (nanos / 1000000) state).2 =
        windowAt limiter.length (opened limiter.length times) (nanos / 1000000)) := by
  rcases Nat.eq_zero_or_pos limiter.length with hzero | hlength
  · have hwindow : limiter.window = 0 := by rw [whole, hzero]
    have hnone : inWindow limiter.length (windowAt limiter.length (opened limiter.length times) (nanos / 1000000)) times = 0 := by
      rw [inWindow, List.countP_eq_zero]
      intro t _
      simp only [decide_eq_true_eq]
      omega
    rw [h.empty hwindow nanos hnanos, hnone]
    exact ⟨none, rfl, rfl, fun hpos => by omega⟩
  · have hentries := h.entries hlength nanos hnanos
    have hstate : ∃ state, (B.cache.entry w.cache nanos (limiter.counterKey i)).mapM CounterJson.decode = .ok state := by
      rcases hentries with hentry | ⟨hentry, -⟩
      · rw [hentry]
        cases counter limiter.length times with
        | none => exact ⟨none, rfl⟩
        | some c =>
          refine ⟨some c, ?_⟩
          rw [Option.map_some, Option.mapM_some, LawfulCounterJson.decode_encode]
          rfl
      · rw [hentry]
        exact ⟨none, rfl⟩
    obtain ⟨state, hstate⟩ := hstate
    have heq := RateLimiter.counterAt_eq hlength h.sorted hentries hstate
    exact ⟨state, hstate, congrArg Prod.fst heq, fun _ => congrArg Prod.snd heq⟩

/-- What does not touch the counter. -/
theorem Tracked.kept (h : Tracked limiter i w times) (hnanos : w.nanos ≤ nanos) {w' : World B.cache} (hnow : w'.nanos = nanos)
    (hentry : ∀ t, nanos ≤ t → B.cache.entry w'.cache t (limiter.counterKey i) = B.cache.entry w.cache t (limiter.counterKey i)) :
    Tracked limiter i w' times where
  sorted := h.sorted
  past t ht := by
    rw [hnow]
    exact (h.past t ht).trans (Nat.div_le_div_right hnanos)
  entries hlength t ht := by
    rw [hnow] at ht
    rw [hentry t ht]
    exact h.entries hlength t (hnanos.trans ht)
  empty hzero t ht := by
    rw [hnow] at ht
    rw [hentry t ht]
    exact h.empty hzero t (hnanos.trans ht)

/-- What is admitted next. -/
theorem Tracked.admitted (h : Tracked limiter i w times) (whole : limiter.window = 1000000 * limiter.length)
    (hnanos : w.nanos ≤ nanos) {w' : World B.cache} (hnow : w'.nanos = nanos) {start : Nat}
    (hstart : 0 < limiter.length → start = windowAt limiter.length (opened limiter.length times) (nanos / 1000000))
    (hentry : ∀ t, nanos ≤ t → B.cache.entry w'.cache t (limiter.counterKey i) =
      if t < nanos + limiter.window then
        some (CounterJson.encode (inWindow limiter.length
          (windowAt limiter.length (opened limiter.length times) (nanos / 1000000)) times + 1, start))
      else none) :
    Tracked limiter i w' (times ++ [nanos / 1000000]) := by
  have hpast : ∀ t ∈ times, t ≤ nanos / 1000000 := fun t ht => (h.past t ht).trans (Nat.div_le_div_right hnanos)
  constructor
  · exact List.pairwise_append.mpr ⟨h.sorted, List.pairwise_singleton .., fun t ht t' ht' =>
      List.mem_singleton.mp ht' ▸ hpast t ht⟩
  · intro t ht
    rw [hnow]
    rcases List.mem_append.mp ht with ht | ht
    · exact hpast t ht
    · exact (List.mem_singleton.mp ht).le
  · intro hlength t ht
    rw [hnow] at ht
    rw [hentry t ht, counter_concat hpast hlength h.sorted, Option.map_some, hstart hlength]
    by_cases hlive : t < nanos + limiter.window
    · exact .inl (if_pos hlive)
    · refine .inr ⟨if_neg hlive, ?_⟩
      rintro _ ⟨⟩
      -- The window at hand has begun before the entry was stored.
      have hbegun := windowAt_le hlength h.sorted hpast
      have hend : nanos / 1000000 + limiter.length ≤ t / 1000000 := by omega
      exact (Nat.add_le_add_right hbegun _).trans hend
  · intro hzero t ht
    rw [hnow] at ht
    rw [hentry t ht, if_neg (by omega)]

variable [Fmt]

variable (B) in
/-- Checks one after the other, each with whether it is admitted. -/
def admissions : World B.cache → List Check → List (Check × Bool)
  | _, [] => []
  | w, c :: checks =>
    let after := (c.limiter.count c.identity).eval (exec B) { w with nanos := c.nanos }
    (c, after.2.toOption.isSome) :: admissions after.1 checks

/-- One check. -/
theorem check_step [LawfulCounterJson] (ttl : B.cache.TtlMap) (registered : Registered limiters checks)
    (separate : Separate checks) {c : Check} (hc : c ∈ checks) (before : List (Check × Bool)) (hnanos : w.nanos ≤ c.nanos)
    (tracked : ∀ c' ∈ checks, Tracked c'.limiter c'.identity w (admittedTimes c' before)) :
    ∃ w' result, (c.limiter.count c.identity).eval (exec B) { w with nanos := c.nanos } = (w', result) ∧ w'.nanos = c.nanos ∧
      (result.toOption.isSome = true ↔ c.Below before) ∧
      ∀ c' ∈ checks, Tracked c'.limiter c'.identity w' (admittedTimes c' (before ++ [(c, result.toOption.isSome)])) := by
  have whole := separate.whole c hc
  obtain ⟨state, hstate, hcount, hopened⟩ := (tracked c hc).counterAt whole hnanos
  obtain ⟨w', result, heval, hnow, hcases⟩ := count_ttl ttl c.limiter c.identity { w with nanos := c.nanos } hstate
  have hnow : w'.nanos = c.nanos := hnow
  refine ⟨w', result, heval, hnow, ?_⟩
  rw [below_iff whole, Check.millis, ← hcount]
  rcases hcases with ⟨hlimit, ⟨e, rfl⟩, hkept⟩ | ⟨hbelow, rfl, hentry, hothers⟩
  · refine ⟨iff_of_false (by simp [Except.toOption]) (Nat.not_lt.mpr hlimit), fun c' hc' => ?_⟩
    rw [Except.toOption, Option.isSome_none, admittedTimes_refused]
    exact (tracked c' hc').kept hnanos hnow fun t ht => hkept t _ ht
  · refine ⟨iff_of_true rfl hbelow, fun c' hc' => ?_⟩
    rw [Except.toOption, Option.isSome_some, admittedTimes_admitted]
    by_cases hsame : c.limiter.name = c'.limiter.name ∧ c.identity = c'.identity
    · obtain ⟨hname, hidentity⟩ := hsame
      have hlimiter := registered.limiter_eq hc hc' hname
      have htimes : admittedTimes c' before = admittedTimes c before := by rw [admittedTimes, admittedTimes, hname, hidentity]
      rw [if_pos ⟨hname, hidentity⟩, ← hlimiter, ← hidentity, htimes, Check.millis]
      refine (tracked c hc).admitted whole hnanos hnow hopened fun t ht => ?_
      rw [hentry t ht, hcount]
    · rw [if_neg hsame]
      refine (tracked c' hc').kept hnanos hnow fun t ht => hothers t _ ht fun hkey => hsame ?_
      obtain ⟨hlimiter, hidentity⟩ := registered.same separate hc' hc hkey
      exact ⟨by rw [hlimiter], hidentity.symm⟩

theorem admissions_exact [LawfulCounterJson] (ttl : B.cache.TtlMap) (registered : Registered limiters checks)
    (separate : Separate checks) (w : World B.cache) (rest : List Check) (hrest : ∀ c ∈ rest, c ∈ checks)
    (sorted : (rest.map (·.nanos)).Pairwise (· ≤ ·)) (started : ∀ c ∈ rest, w.nanos ≤ c.nanos)
    (past : List (Check × Bool)) (tracked : ∀ c ∈ checks, Tracked c.limiter c.identity w (admittedTimes c past))
    {before after : List (Check × Bool)} {c : Check} {admitted : Bool}
    (hrun : admissions B w rest = before ++ (c, admitted) :: after) : admitted = true ↔ c.Below (past ++ before) := by
  induction rest generalizing w past before with
  | nil =>
    rw [admissions] at hrun
    exact absurd hrun (by simp)
  | cons check rest ih =>
    obtain ⟨w', result, heval, hnow, hadmitted, htracked⟩ :=
      check_step ttl registered separate (hrest check (List.mem_cons_self ..)) past (started check (List.mem_cons_self ..)) tracked
    rw [admissions, heval] at hrun
    rw [List.map_cons, List.pairwise_cons] at sorted
    cases before with
    | nil =>
      obtain ⟨hhead, -⟩ := List.cons.inj hrun
      cases hhead
      rw [List.append_nil]
      exact hadmitted
    | cons first before =>
      obtain ⟨hfirst, htail⟩ := List.cons.inj hrun
      rw [← hfirst, List.append_cons]
      refine ih w' (fun c hc => hrest c (List.mem_cons_of_mem _ hc)) sorted.2 (fun c hc => ?_) _ htracked htail
      rw [hnow]
      exact sorted.1 c.nanos (List.mem_map_of_mem hc)

variable (B) in
/-- Each limiter admits an identity exactly while fewer than its limit have been admitted in the window at hand, whatever
    the others do. -/
theorem limiters_exact [LawfulCounterJson] (ttl : B.cache.TtlMap) (registered : Registered limiters checks)
    (separate : Separate checks) (w : World B.cache) (sorted : (checks.map (·.nanos)).Pairwise (· ≤ ·))
    (started : ∀ c ∈ checks, w.nanos ≤ c.nanos)
    (fresh : ∀ c ∈ checks, ∀ t, w.nanos ≤ t → B.cache.entry w.cache t c.key = none) :
    ∀ before c admitted after, admissions B w checks = before ++ (c, admitted) :: after → (admitted = true ↔ c.Below before) := by
  intro before c admitted after hrun
  refine admissions_exact ttl registered separate w checks (fun _ h => h) sorted started [] (fun c hc => ?_) hrun
  exact ⟨List.Pairwise.nil, fun t ht => absurd ht List.not_mem_nil, fun _ t ht => .inl (fresh c hc t ht),
    fun _ t ht => fresh c hc t ht⟩

end Runs

/-! ### Two names -/

section Names
attribute [local instance] Fmt.decimal CounterJson.text

theorem mapCache_ttl : mapCache.TtlMap where
  get_eq t key s := ⟨s, rfl, fun _ _ _ => rfl⟩
  set_eq t key value ttl s := by
    refine ⟨_, rfl, fun t' _ => ?_, fun t' key' _ hkey => ?_⟩
    · by_cases hlive : t' < t + ttl <;> simp [mapCache, hlive]
    · simp [mapCache, hkey]

/-- One request a second for the API, and one for its login. -/
def apiLimiter : RateLimiter := ⟨"api", 1, 1000000000⟩

def loginLimiter : RateLimiter := ⟨"api:login", 1, 1000000000⟩

def freshWorld : World mapCache := ⟨fun _ => [], fun _ => none, 0, [], []⟩

def apart : List Check := [⟨apiLimiter, "10.0.0.1", 0⟩, ⟨loginLimiter, "10.0.0.1", 0⟩]

theorem apart_registered : Registered [apiLimiter, loginLimiter] apart := ⟨by decide, by simp [apart]⟩

theorem apart_separate : Separate apart where
  whole := by simp [apart, apiLimiter, loginLimiter, RateLimiter.length]
  apart := by simp [apart, Check.key, RateLimiter.counterKey, apiLimiter, loginLimiter]

/-- The check of the login comes to a limiter that has admitted nobody, as the run says. -/
theorem apart_exact :
    admissions posts freshWorld apart =
        [(⟨apiLimiter, "10.0.0.1", 0⟩, true)] ++ (⟨loginLimiter, "10.0.0.1", 0⟩, true) :: [] ∧
      Check.Below ⟨loginLimiter, "10.0.0.1", 0⟩ [(⟨apiLimiter, "10.0.0.1", 0⟩, true)] :=
  have hrun : admissions posts freshWorld apart =
      [(⟨apiLimiter, "10.0.0.1", 0⟩, true)] ++ (⟨loginLimiter, "10.0.0.1", 0⟩, true) :: [] := rfl
  ⟨hrun, (limiters_exact posts mapCache_ttl apart_registered apart_separate freshWorld (by simp [apart])
    (fun _ _ => Nat.zero_le _) (fun _ _ _ _ => rfl) _ _ _ _ hrun).mp rfl⟩

/-- A client may call itself `login:10.0.0.1`. -/
def colliding : List Check := [⟨apiLimiter, "login:10.0.0.1", 0⟩, ⟨loginLimiter, "10.0.0.1", 0⟩]

/-- It uses up the login of another. -/
theorem colliding_rejected :
    admissions posts freshWorld colliding =
        [(⟨apiLimiter, "login:10.0.0.1", 0⟩, true)] ++ (⟨loginLimiter, "10.0.0.1", 0⟩, false) :: [] ∧
      Check.Below ⟨loginLimiter, "10.0.0.1", 0⟩ [(⟨apiLimiter, "login:10.0.0.1", 0⟩, true)] := by
  refine ⟨rfl, ?_⟩
  rw [Check.Below]
  decide +kernel

end Names

end Djangors.Rest
