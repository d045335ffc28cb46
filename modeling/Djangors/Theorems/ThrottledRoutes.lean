import Djangors.Lib.FixedWindow
import Djangors.Rest.Endpoints
import Djangors.Theorems.ListEndpoints
import Djangors.Theorems.Reverse

/-! # Throttled routes

Requests to the routes of a view set with a throttle, one after the other. All handlers but `destroy` ask the throttle
first. -/

namespace Djangors.Rest
open Db Http Orm Sql FixedWindow

/-! ### Calls of one kind -/

/-- The world when only users have been looked up. -/
def World.lookedUp {C : CacheBackend} (w : World C) (n : Nat) : World C :=
  { w with accesses := List.replicate n .lookup }

section Serves
variable {m : Model} {α β : Type}

/-- The handlers behind the throttle run statements alone, and do not succeed without one. -/
structure Serves (p : Action m α) : Prop where
  only : p.Only (·.isStatement)
  asks : ∀ a, p ≠ .done (.ok a)

theorem serves_lift_bind {result : Except Failure α} {f : α → Action m β} (h : ∀ a, Serves (f a)) :
    Serves (Fallible.lift result >>= f) := by
  cases result with
  | ok a => exact h a
  | error e => exact ⟨trivial, fun _ h => by cases h⟩

theorem serves_ask_bind {call : ViewCall m} {f : call.Answer → Action m β} (hcall : call.isStatement = true)
    (h : ∀ answer, (f answer).Only (·.isStatement)) : Serves (ask call >>= f) :=
  ⟨⟨hcall, h⟩, fun _ h => by cases h⟩

variable [Fmt] {B : Backend m} {w : World B.cache}

/-- Statements of a view set leave the cache and the counters alone. -/
theorem statements_eval {p : Program (ViewCall.Answer (m := m)) α} (h : p.Only (·.isStatement)) :
    (p.eval (exec B) w).1.cache = w.cache ∧ (p.eval (exec B) w).1.counted = w.counted ∧
      (p.eval (exec B) w).1.nanos = w.nanos := by
  refine Program.Always.invariant
    (I := fun w' : World B.cache => w'.cache = w.cache ∧ w'.counted = w.counted ∧ w'.nanos = w.nanos)
    (h.always fun _ _ h => h) ⟨rfl, rfl, rfl⟩ fun call w' hcall hw => ?_
  cases call <;> first | exact hw | cases hcall

/-- Looking users up shows in the accesses alone. -/
theorem lookups_eval {p : Program (ViewCall.Answer (m := m)) α} (h : p.Only (·.isLookup)) (n : Nat) :
    ∃ k, (p.eval (exec B) (w.lookedUp n)).1 = w.lookedUp k := by
  refine Program.Always.invariant (I := fun w' : World B.cache => ∃ k, w' = w.lookedUp k) (h.always fun _ _ h => h)
    ⟨n, rfl⟩ fun call w' hcall => ?_
  rintro ⟨k, rfl⟩
  cases call <;> first
    | (refine ⟨k + 1, ?_⟩; simp [exec, World.lookedUp, List.replicate_succ']; done)
    | cases hcall

theorem eval_of_none {p : Program (ViewCall.Answer (m := m)) α} (h : p.Only fun _ => False) : (p.eval (exec B) w).1 = w := by
  cases p with
  | done a => rfl
  | call call next => exact h.1.elim

/-- Users are looked up in the tables. -/
theorem lookups_congr {p : Program (ViewCall.Answer (m := m)) α} (h : p.Only (·.isLookup)) (n : Nat) :
    (p.eval (exec B) (w.lookedUp n)).2 = (p.eval (exec B) w).2 := by
  refine Program.Always.eval_eq (E := fun v w : World B.cache => v.tables = w.tables) (h.always fun _ _ h => h) rfl
    fun call v w hcall hvw => ?_
  cases call <;> first | (simp [exec, hvw]; done) | cases hcall

theorem mem_exec {call : ViewCall m} (hcall : call.isStatement = true) :
    Access.statement ∈ (exec B call w).1.accesses := by
  cases call <;> first | (simp [exec, World.ran]; done) | cases hcall

/-- A handler that succeeds has run a statement. -/
theorem Serves.mem_accesses {p : Action m α} (h : Serves p) {a : α} (hok : (p.eval (exec B) w).2 = .ok a) :
    Access.statement ∈ (p.eval (exec B) w).1.accesses := by
  obtain ⟨only, asks⟩ := h
  match p, only, asks, hok with
  | .done result, _, asks, hok => exact absurd (congrArg Program.done hok) (asks a)
  | .call call next, only, _, _ =>
    exact Program.Always.invariant (s := (exec B call w).1) (I := fun w : World B.cache => Access.statement ∈ w.accesses)
      ((only.2 _).always fun _ _ h => h) (mem_exec only.1) fun _ _ hcall _ => mem_exec hcall

end Serves

/-! ### The handlers behind the throttle -/

section Handlers
variable {m : Model}

theorem serves_fetchOne (render : m.Instance → Json F64) (status : Nat) (qs : QuerySet m.info) :
    Serves (ViewSet.fetchOne render status qs) := by
  refine serves_ask_bind rfl fun answer => ?_
  rcases answer with (_ | _ | _ | _ | _ | _ | _) | _ <;> trivial

theorem serves_fetchWritten (render : m.Instance → Json F64) (status : Nat) (qs : QuerySet m.info) :
    Serves (ViewSet.fetchWritten render status qs) := by
  refine serves_ask_bind rfl fun answer => ?_
  rcases answer with _ | _ <;> trivial

variable [Wire] (options : EndpointOptions m) (req : ApiRequest)

theorem serves_list [Fmt] : Serves (ViewSet.list options req) := by
  refine serves_ask_bind rfl fun answer => ?_
  rcases answer with _ | _ <;> trivial

theorem serves_retrieve : Serves (ViewSet.retrieve options req) :=
  serves_lift_bind fun _ => serves_lift_bind fun _ => serves_lift_bind fun _ => serves_fetchOne ..

theorem serves_create : Serves (ViewSet.create options req) :=
  serves_lift_bind fun _ => serves_ask_bind rfl fun _ => Fallible.only_bind trivial fun _ =>
    Fallible.only_bind trivial fun _ => Fallible.only_bind trivial fun _ => (serves_fetchWritten ..).only

theorem serves_update : Serves (ViewSet.update options req) := by
  refine serves_lift_bind fun _ => serves_lift_bind fun _ => serves_lift_bind fun _ => serves_lift_bind fun _ =>
    serves_ask_bind rfl fun _ => Fallible.only_bind trivial fun updatedRows => ?_
  split
  · trivial
  · exact (serves_fetchWritten ..).only

end Handlers

/-! ### The check -/

section Check
variable [CounterJson] {m : Model} {B : Backend m} {limiter : RateLimiter} {identity : String} {w w' : World B.cache}

/-- A request that is not counted: what is in the cache stays. -/
structure Uncounted (w w' : World B.cache) : Prop where
  counted : w'.counted = w.counted
  entries : ∀ t key, w.nanos ≤ t → B.cache.entry w'.cache t key = B.cache.entry w.cache t key

/-- A request that is counted: its counter was below the limit and has been raised. -/
structure Counted (limiter : RateLimiter) (identity : String) (w w' : World B.cache) : Prop where
  counted : w'.counted = w.counted ++ [limiter.counterKey identity]
  others : ∀ t key, w.nanos ≤ t → key ≠ limiter.counterKey identity →
    B.cache.entry w'.cache t key = B.cache.entry w.cache t key
  raised : ∃ state, (B.cache.entry w.cache w.nanos (limiter.counterKey identity)).mapM CounterJson.decode = .ok state ∧
    (limiter.counterAt (w.nanos / 1000000) state).1 < limiter.maxAttempts ∧
    ∀ t, w.nanos ≤ t →
      B.cache.entry w'.cache t (limiter.counterKey identity) =
        some (CounterJson.encode ((limiter.counterAt (w.nanos / 1000000) state).1 + 1,
          (limiter.counterAt (w.nanos / 1000000) state).2)) ∨
      w.nanos + limiter.window ≤ t ∧ B.cache.entry w'.cache t (limiter.counterKey identity) = none

/-- The check ends with an error unless it counts. -/
theorem count_spec [Fmt] (lawful : B.cache.Lawful) (limiter : RateLimiter) (identity : String) (w : World B.cache) :
    let after := (limiter.count identity).eval (exec B) w
    after.1.nanos = w.nanos ∧ after.1.accesses = w.accesses ∧
      ((∃ e, after.2 = .error e) ∧ Uncounted w after.1 ∨ after.2 = .ok () ∧ Counted limiter identity w after.1) := by
  have hstart : (limiter.count identity).eval (exec B) w =
      Fallible.eval (exec B) (do
        let stored : Option (List UInt8) ← orInternal (B.cache.get w.nanos (limiter.counterKey identity) w.cache).2
        let state ← orInternal (stored.mapM CounterJson.decode)
        if limiter.maxAttempts ≤ (limiter.counterAt (w.nanos / 1000000) state).1 then
          fail (.tooManyRequests "rate limit exceeded".toList)
        else do
          let stored ← ask (.cacheSet (limiter.counterKey identity)
            (CounterJson.encode ((limiter.counterAt (w.nanos / 1000000) state).1 + 1,
              (limiter.counterAt (w.nanos / 1000000) state).2)) limiter.window)
          orInternal stored) { w with cache := (B.cache.get w.nanos (limiter.counterKey identity) w.cache).1 } := rfl
  cases hget : B.cache.get w.nanos (limiter.counterKey identity) w.cache with | mk cache answer
  have hkept := lawful.get_keeps w.nanos (limiter.counterKey identity) w.cache
  rw [hget] at hkept hstart
  have uncounted : Uncounted w { w with cache } := ⟨rfl, fun t key ht => hkept t key ht⟩
  cases answer with
  | error e =>
    rw [hstart]
    exact ⟨rfl, rfl, .inl ⟨⟨_, rfl⟩, uncounted⟩⟩
  | ok stored =>
    have hvalue := lawful.get_value _ _ _ _ _ hget
    rw [Fallible.eval_bind_ok rfl] at hstart
    cases hstate : stored.mapM CounterJson.decode with
    | error e =>
      rw [hstate, Fallible.eval_bind_error rfl] at hstart
      rw [hstart]
      exact ⟨rfl, rfl, .inl ⟨⟨_, rfl⟩, uncounted⟩⟩
    | ok state =>
      rw [hstate, Fallible.eval_bind_ok rfl] at hstart
      by_cases hlimit : limiter.maxAttempts ≤ (limiter.counterAt (w.nanos / 1000000) state).1
      · rw [if_pos hlimit] at hstart
        rw [hstart]
        exact ⟨rfl, rfl, .inl ⟨⟨_, rfl⟩, uncounted⟩⟩
      · rw [if_neg hlimit] at hstart
        let value := CounterJson.encode ((limiter.counterAt (w.nanos / 1000000) state).1 + 1,
          (limiter.counterAt (w.nanos / 1000000) state).2)
        cases hset : B.cache.set w.nanos (limiter.counterKey identity) value limiter.window cache with | mk cache' stored'
        cases stored' with
        | error e =>
          have hstored : Fallible.eval (exec B) (ask (.cacheSet (limiter.counterKey identity) value limiter.window))
              { w with cache } = ({ w with cache := cache' }, .ok (.error e)) := by simp [ask, exec, hset]
          rw [Fallible.eval_bind_ok hstored] at hstart
          rw [hstart]
          refine ⟨rfl, rfl, .inl ⟨⟨_, rfl⟩, rfl, fun t key ht => ?_⟩⟩
          exact (lawful.set_error _ _ _ _ _ _ _ _ _ hset ht).trans (hkept t key ht)
        | ok done =>
          have hstored : Fallible.eval (exec B) (ask (.cacheSet (limiter.counterKey identity) value limiter.window))
              { w with cache } =
                ({ w with cache := cache', counted := w.counted ++ [limiter.counterKey identity] }, .ok (.ok ())) := by
            simp [ask, exec, hset]
          rw [Fallible.eval_bind_ok hstored] at hstart
          rw [hstart]
          refine ⟨rfl, rfl, .inr ⟨rfl, rfl, fun t key ht hkey => ?_, state, ?_, Nat.not_le.mp hlimit, fun t ht => ?_⟩⟩
          · exact (lawful.set_keeps _ _ _ _ _ _ _ _ _ hset ht hkey).trans (hkept t key ht)
          · rw [← hvalue, hstate]
          · exact lawful.set_entry _ _ _ _ _ _ t hset ht

end Check

/-! ### Guarded handlers -/

section Guarded
variable {m : Model}

theorem byUserOrIp_only (req : ApiRequest) : (byUserOrIp (m := m) req).Only (·.isLookup) := by
  refine (currentUser_only req).bind fun user => ?_
  cases user <;> trivial

/-- Neither the permission nor the throttle looks up a user. -/
structure Anonymous (permission : Permission m) (req : ApiRequest) : Prop where
  permission : (permission.hasPermission req).Only fun _ => False
  session : req.sessionUser = none
  token : tokenKey req = none

theorem Anonymous.byUserOrIp {permission : Permission m} {req : ApiRequest} (h : Anonymous permission req) :
    (byUserOrIp (m := m) req).Only fun _ => False := by
  rw [Rest.byUserOrIp, currentUser, h.session, tokenAuth, h.token]
  trivial

variable [Fmt] [CounterJson] {B : Backend m} {limiter : RateLimiter} {w : World B.cache}

/-- The identity that a request is counted under. -/
def identityOf (B : Backend m) (w : World B.cache) (req : ApiRequest) : String :=
  ((byUserOrIp req).eval (exec B) w).2

/-- A request that is not counted is refused, and all that the database is asked for are users. -/
structure Refused (w : World B.cache) (after : World B.cache × Except Failure Reply) : Prop where
  nanos : after.1.nanos = w.nanos
  error : ∃ e, after.2 = .error e
  uncounted : Uncounted w after.1
  lookups : ∃ n, after.1.accesses = List.replicate n .lookup

/-- A request that is counted may go on to the statements of its handler, and succeeds with one. -/
structure Admitted (limiter : RateLimiter) (identity : String) (w : World B.cache)
    (after : World B.cache × Except Failure Reply) : Prop where
  nanos : after.1.nanos = w.nanos
  counted : Counted limiter identity w after.1
  reaches : ∀ reply, after.2 = .ok reply → Access.statement ∈ after.1.accesses

theorem refused_or_admitted (lawful : B.cache.Lawful) {handler : Action m Reply} (serves : Serves handler)
    (identity : String) (n : Nat) :
    let after := (limiter.count identity >>= fun _ => handler).eval (exec B) (w.lookedUp n)
    Refused w after ∧ after.1.accesses = List.replicate n .lookup ∨ Admitted limiter identity w after := by
  intro after
  obtain ⟨hnanos, haccesses, ⟨⟨e, he⟩, huncounted⟩ | ⟨hok, hcounted⟩⟩ := count_spec lawful limiter identity (w.lookedUp n)
  · have hafter : after = (((limiter.count identity).eval (exec B) (w.lookedUp n)).1, .error e) :=
      Fallible.eval_bind_error (Prod.ext rfl he)
    rw [hafter]
    exact .inl ⟨⟨hnanos, ⟨e, rfl⟩, ⟨huncounted.counted, huncounted.entries⟩, n, haccesses⟩, haccesses⟩
  · have hafter : after = handler.eval (exec B) ((limiter.count identity).eval (exec B) (w.lookedUp n)).1 :=
      Fallible.eval_bind_ok (Prod.ext rfl hok)
    obtain ⟨hcache, hstays, hnanos'⟩ := statements_eval (w := ((limiter.count identity).eval (exec B) (w.lookedUp n)).1)
      serves.only
    refine .inr ⟨hafter ▸ hnanos'.trans hnanos, ?_, fun reply hreply => ?_⟩
    · rw [hafter]
      refine ⟨hstays.trans hcounted.counted, fun t key ht hkey => ?_, ?_⟩
      · rw [hcache]
        exact hcounted.others t key ht hkey
      · rw [hcache]
        exact hcounted.raised
    · rw [hafter] at hreply ⊢
      exact serves.mem_accesses hreply

theorem guarded_spec [Wire] (lawful : B.cache.Lawful) (permission : Permission m) {options : EndpointOptions m}
    (hthrottle : options.throttle = some limiter) {handler : EndpointOptions m → Endpoint m}
    (serves : ∀ req, Serves (handler options req)) (req : ApiRequest) (hw : w.accesses = []) :
    let after := (guarded permission (ViewSet.throttled options handler) req).eval (exec B) w
    Refused w after ∧ (Anonymous permission req → after.1.accesses = []) ∨
      Admitted limiter (identityOf B w req) w after := by
  intro after
  have hempty : w.lookedUp 0 = w := by
    rw [World.lookedUp, List.replicate_zero, ← hw]
  obtain ⟨n, hn⟩ := lookups_eval (w := w) (permission.looksUp req) 0
  rw [hempty] at hn
  cases hok : ((permission.hasPermission req).eval (exec B) w).2 with
  | false =>
    have hguard : after = (fail (.unauthorized "not authenticated".toList)).eval (exec B) (w.lookedUp n) :=
      (Program.eval_bind _ _).trans (by rw [hok, hn])
    rw [hguard]
    refine .inl ⟨⟨rfl, ⟨_, rfl⟩, ⟨rfl, fun _ _ _ => rfl⟩, n, rfl⟩, fun h => ?_⟩
    rw [eval_of_none h.permission] at hn
    exact (congrArg World.accesses hn).symm.trans hw
  | true =>
    have hguard : after = (ViewSet.throttled options handler req).eval (exec B) (w.lookedUp n) :=
      (Program.eval_bind _ _).trans (by rw [hok, hn])
    obtain ⟨k, hk⟩ := lookups_eval (w := w) (byUserOrIp_only req) n
    have hcheck : (limiter.check req).eval (exec B) (w.lookedUp n) =
        (limiter.count (identityOf B w req)).eval (exec B) (w.lookedUp k) := by
      have hbind : Program.eval (exec B) ((byUserOrIp req).bind limiter.count) (w.lookedUp n) = _ := Program.eval_bind _ _
      rw [hk, lookups_congr (byUserOrIp_only req) n] at hbind
      exact hbind
    have hafter : after =
        (limiter.count (identityOf B w req) >>= fun _ => handler options req).eval (exec B) (w.lookedUp k) := by
      rw [hguard, ViewSet.throttled, hthrottle, Fallible.eval_bind, hcheck, ← Fallible.eval_bind]
    rw [hafter]
    refine (refused_or_admitted lawful (serves req) (identityOf B w req) k).imp_left fun ⟨hrefused, haccesses⟩ =>
      ⟨hrefused, fun h => ?_⟩
    rw [eval_of_none h.permission] at hn
    rw [eval_of_none h.byUserOrIp, ← hn] at hk
    rw [haccesses]
    exact (congrArg World.accesses hk).symm.trans hw

end Guarded

/-! ### Visits -/

section Visits
variable {m : Model}

/-- A request that comes in at a time. -/
structure Arrival where
  nanos : Nat
  path : List Char
  request : ApiRequest

/-- A request that has been answered: when it came in and from whom, whether it has been counted, its accesses to the
    database and how it ended. -/
structure Visit where
  millis : Nat
  identity : String
  counted : Bool
  accesses : List Access
  outcome : Except Failure Reply

/-- The world in which a request comes in. -/
def World.entered {C : CacheBackend} (w : World C) (nanos : Nat) : World C := { w with nanos, accesses := [], counted := [] }

/-- The handler of a path, with the `pk` that it is given. -/
def endpoint (router : Router (Endpoint m)) (path : List Char) (method : Method) : Option (Endpoint m × Option (List Char)) := do
  let (idx, params) ← router.matchPath path method
  let route ← router.routes[idx]?
  return (route.handler, params.get "pk".toList)

/-- When the visits of an identity that have been counted came in. -/
def countedTimes (identity : String) (vs : List Visit) : List Nat :=
  (vs.filter fun v => v.identity == identity && v.counted).map (·.millis)

/-- In each window at most `n` visits reach the database, each of those is in a window, windows do not overlap, and
    every other visit ends with an error. -/
structure Throttled (length n : Nat) (reaches : Visit → Bool) (windows : Nat → Prop) (vs : List Visit) : Prop where
  apart : ∀ w w', windows w → windows w' → w < w' → w + length ≤ w'
  covered : ∀ v ∈ vs, reaches v = true → ∃ w, windows w ∧ w ≤ v.millis ∧ v.millis < w + length
  bounded : ∀ w, windows w → inWindow length w ((vs.filter reaches).map (·.millis)) ≤ n
  rejected : ∀ v ∈ vs, reaches v = false → ∃ e, v.outcome = .error e

/-! ### What has been counted -/

/-- The length of the window of a limiter in milliseconds. -/
def RateLimiter.length (limiter : RateLimiter) : Nat := limiter.window / 1000000

theorem counterKey_injective (limiter : RateLimiter) : Function.Injective limiter.counterKey := by
  intro i j h
  simpa [RateLimiter.counterKey] using h

theorem length_pos {limiter : RateLimiter} {scope rate : String} (h : RateLimiter.ofRate scope rate = some limiter) :
    0 < limiter.length := by
  obtain ⟨⟨count, window⟩, hparsed, rfl⟩ := Option.map_eq_some_iff.mp h
  have hperiod : ∃ period, periodLength period = some window := by
    rw [parseRate] at hparsed
    split at hparsed
    · obtain ⟨count', -, hparsed⟩ := Option.bind_eq_some_iff.mp hparsed
      obtain ⟨window', hwindow, hparsed⟩ := Option.bind_eq_some_iff.mp hparsed
      cases hparsed
      exact ⟨_, hwindow⟩
    · cases hparsed
  obtain ⟨period, hperiod⟩ := hperiod
  have hwindow : 1000000 ≤ window := by
    rw [periodLength] at hperiod
    split_ifs at hperiod <;> rw [Option.some.injEq] at hperiod <;> omega
  exact Nat.div_pos hwindow (by omega)

/-- What a visit shows: that it was refused, or counted. -/
structure Answered (permission : Permission m) (a : Arrival) (v : Visit) : Prop where
  refused : v.counted = false → (∃ e, v.outcome = .error e) ∧ Access.statement ∉ v.accesses ∧
    ((∀ pk, Anonymous permission { a.request with pk }) → v.accesses = [])
  reaches : v.counted = true → ∀ reply, v.outcome = .ok reply → Access.statement ∈ v.accesses

/-- A visit ends with an error, unless it has run a statement. -/
theorem Answered.rejected {permission : Permission m} {a : Arrival} {v : Visit} (h : Answered permission a v)
    (hnone : ∀ reply, v.outcome = .ok reply → Access.statement ∉ v.accesses) : ∃ e, v.outcome = .error e := by
  cases hcounted : v.counted with
  | false => exact (h.refused hcounted).1
  | true =>
    cases houtcome : v.outcome with
    | error e => exact ⟨e, rfl⟩
    | ok reply => exact absurd (h.reaches hcounted reply houtcome) (hnone reply houtcome)

/-- What is counted is limited, and what reaches the database has been counted. -/
theorem throttled_of {length n : Nat} {i : String} (hlength : 0 < length) {vs : List Visit} {reaches : Visit → Bool}
    (hcounted : ∀ v ∈ vs, reaches v = true → v.counted = true)
    (hrejected : ∀ v ∈ vs, reaches v = false → ∃ e, v.outcome = .error e)
    (hsorted : (countedTimes i vs).Pairwise (· ≤ ·)) (hlimited : Limited length n (countedTimes i vs)) :
    Throttled length n reaches (IsWindow length (countedTimes i vs)) (vs.filter (·.identity == i)) where
  apart _ _ hw hw' hlt := isWindow_apart hlength hsorted hw hw' hlt
  covered v hv hreaches := by
    obtain ⟨hv, hidentity⟩ := List.mem_filter.mp hv
    refine exists_isWindow hlength hsorted (List.mem_map_of_mem (List.mem_filter.mpr ⟨hv, ?_⟩))
    rw [hidentity, hcounted v hv hreaches]
    rfl
  bounded w hw := by
    refine le_trans ?_ (hlimited.inWindow_le hlength hsorted hw)
    have hsame : vs.filter (fun v => reaches v && v.identity == i) =
        vs.filter fun v => reaches v && (v.identity == i && v.counted) := by
      refine List.filter_congr fun v hv => ?_
      cases hreaches : reaches v with
      | false => rfl
      | true => rw [hcounted v hv hreaches, Bool.and_true]
    refine List.Sublist.countP_le (List.Sublist.map _ ?_)
    rw [List.filter_filter, hsame]
    exact List.monotone_filter_right _ fun v hv => (Bool.and_eq_true_iff.mp hv).2
  rejected v hv := hrejected v (List.mem_filter.mp hv).1

variable [CounterJson] {B : Backend m} {limiter : RateLimiter} {times : String → List Nat} {i : String} {w : World B.cache}

/-- The cache holds the counter of each identity, until its window is over. -/
structure Tracks (limiter : RateLimiter) (w : World B.cache) (times : String → List Nat) : Prop where
  sorted : ∀ i, (times i).Pairwise (· ≤ ·)
  past : ∀ i, ∀ t ∈ times i, t ≤ w.nanos / 1000000
  limited : ∀ i, Limited limiter.length limiter.maxAttempts (times i)
  entries : ∀ i t, w.nanos ≤ t →
    B.cache.entry w.cache t (limiter.counterKey i) = (counter limiter.length (times i)).map CounterJson.encode ∨
    B.cache.entry w.cache t (limiter.counterKey i) = none ∧
      ∀ c, counter limiter.length (times i) = some c → c.2 + limiter.length ≤ t / 1000000

/-- An entry with the counter of an identity, or none when its window is over, gives what is counted in the window at
    hand. -/
theorem RateLimiter.counterAt_eq [LawfulCounterJson] (hlength : 0 < limiter.length) {times : List Nat}
    (hsorted : times.Pairwise (· ≤ ·)) {millis : Nat} {entry : Option (List UInt8)}
    (h : entry = (counter limiter.length times).map CounterJson.encode ∨
      entry = none ∧ ∀ c, counter limiter.length times = some c → c.2 + limiter.length ≤ millis)
    {state : Option (Nat × Nat)} (hstate : entry.mapM CounterJson.decode = .ok state) :
    limiter.counterAt millis state =
      (inWindow limiter.length (windowAt limiter.length (opened limiter.length times) millis) times,
        windowAt limiter.length (opened limiter.length times) millis) := by
  have hfilter : ∀ c : Nat × Nat, (millis - c.2 < limiter.window / 1000000) ↔ millis < c.2 + limiter.length := by
    intro c
    rw [RateLimiter.length] at hlength ⊢
    omega
  rw [← counter_at hlength hsorted, RateLimiter.counterAt]
  rcases h with hentry | ⟨hentry, hover⟩
  · cases hcounter : counter limiter.length times with
    | none =>
      rw [hentry, hcounter] at hstate
      cases hstate
      rfl
    | some c =>
      rw [hentry, hcounter, Option.map_some, Option.mapM_some, LawfulCounterJson.decode_encode] at hstate
      cases hstate
      simp only [Option.filter_some, hfilter]
  · rw [hentry] at hstate
    cases hstate
    cases hcounter : counter limiter.length times with
    | none => rfl
    | some c => simp [Option.filter_some, Nat.not_lt.mpr (hover c hcounter)]

/-- The limiter finds what is counted in the window at hand. -/
theorem Tracks.counterAt [LawfulCounterJson] (h : Tracks limiter w times) (hlength : 0 < limiter.length) {nanos : Nat}
    (hnanos : w.nanos ≤ nanos) {state : Option (Nat × Nat)}
    (hstate : (B.cache.entry w.cache nanos (limiter.counterKey i)).mapM CounterJson.decode = .ok state) :
    limiter.counterAt (nanos / 1000000) state =
      (inWindow limiter.length (windowAt limiter.length (opened limiter.length (times i)) (nanos / 1000000)) (times i),
        windowAt limiter.length (opened limiter.length (times i)) (nanos / 1000000)) :=
  RateLimiter.counterAt_eq hlength (h.sorted i) (h.entries i nanos hnanos) hstate

theorem Tracks.refused (h : Tracks limiter w times) {nanos : Nat} (hnanos : w.nanos ≤ nanos)
    {after : World B.cache × Except Failure Reply} (hrefused : Refused (w.entered nanos) after) :
    Tracks limiter after.1 times where
  sorted := h.sorted
  past i t ht := by
    rw [hrefused.nanos]
    exact (h.past i t ht).trans (Nat.div_le_div_right hnanos)
  limited := h.limited
  entries i t ht := by
    rw [hrefused.nanos] at ht
    rw [hrefused.uncounted.entries t _ ht]
    exact h.entries i t (hnanos.trans ht)

/-- What is counted next. -/
theorem Tracks.admitted [LawfulCounterJson] (h : Tracks limiter w times) (hlength : 0 < limiter.length) {nanos : Nat}
    (hnanos : w.nanos ≤ nanos) {after : World B.cache × Except Failure Reply}
    (hadmitted : Admitted limiter i (w.entered nanos) after) :
    Tracks limiter after.1 (Function.update times i (times i ++ [nanos / 1000000])) := by
  obtain ⟨state, hstate, hbelow, hentry⟩ := hadmitted.counted.raised
  have hcounter := h.counterAt hlength hnanos hstate
  have hnow : (w.entered nanos).nanos / 1000000 = nanos / 1000000 := rfl
  rw [hnow, hcounter] at hbelow hentry
  have hpast : ∀ j, ∀ t ∈ times j, t ≤ nanos / 1000000 := fun j t ht => (h.past j t ht).trans (Nat.div_le_div_right hnanos)
  constructor
  · intro j
    by_cases hj : j = i
    · subst hj
      rw [Function.update_self]
      exact List.pairwise_append.mpr ⟨h.sorted j, List.pairwise_singleton .., fun t ht t' ht' =>
        List.mem_singleton.mp ht' ▸ hpast j t ht⟩
    · rw [Function.update_of_ne hj]
      exact h.sorted j
  · intro j t ht
    rw [hadmitted.nanos]
    by_cases hj : j = i
    · subst hj
      rw [Function.update_self] at ht
      rcases List.mem_append.mp ht with ht | ht
      · exact hpast j t ht
      · exact (List.mem_singleton.mp ht).le
    · rw [Function.update_of_ne hj] at ht
      exact hpast j t ht
  · intro j
    by_cases hj : j = i
    · subst hj
      rw [Function.update_self]
      exact (h.limited j).concat hbelow
    · rw [Function.update_of_ne hj]
      exact h.limited j
  · intro j t ht
    rw [hadmitted.nanos] at ht
    by_cases hj : j = i
    · subst hj
      rw [Function.update_self, counter_concat (hpast j) hlength (h.sorted j), Option.map_some]
      refine (hentry t ht).imp_right fun ⟨hover, hnone⟩ => ⟨hnone, ?_⟩
      rintro _ ⟨⟩
      -- The window at hand has begun before the entry was stored.
      have hbegun := windowAt_le hlength (h.sorted j) (hpast j)
      have hend : nanos / 1000000 + limiter.length ≤ t / 1000000 := by
        have hover : nanos + limiter.window ≤ t := hover
        rw [RateLimiter.length]
        omega
      exact (Nat.add_le_add_right hbegun _).trans hend
    · rw [Function.update_of_ne hj, hadmitted.counted.others t _ ht fun heq => hj (counterKey_injective limiter heq)]
      exact h.entries j t (hnanos.trans ht)

/-! ### Runs -/

variable [Fmt] [Wire]

section Serve
variable (B) (router : Router (Endpoint m))

def serve (w : World B.cache) (a : Arrival) : World B.cache × Visit :=
  let entered := w.entered a.nanos
  let after := match endpoint router a.path a.request.method with
    | some (handler, pk) => (handler { a.request with pk }).eval (exec B) entered
    | none => (entered, .error (.error .notFound))
  (after.1, ⟨a.nanos / 1000000, identityOf B entered a.request, !after.1.counted.isEmpty, after.1.accesses, after.2⟩)

/-- The visits of requests one after the other. -/
def visits : World B.cache → List Arrival → List Visit
  | _, [] => []
  | w, a :: arrivals => (serve B router w a).2 :: visits (serve B router w a).1 arrivals

end Serve

/-- Every handler but `destroy` is behind the throttle. -/
theorem endpoint_guarded {basePath : List Char} {options : EndpointOptions m} {permission : Permission m} {path : List Char}
    {method : Method} (hmethod : method ≠ .delete) {handler : Endpoint m} {pk : Option (List Char)}
    (h : endpoint (viewsetRoutesWithOptions .new basePath options permission) path method = some (handler, pk)) :
    ∃ behind : EndpointOptions m → Endpoint m, handler = guarded permission (ViewSet.throttled options behind) ∧
      ∀ req, Serves (behind options req) := by
  obtain ⟨⟨idx, params⟩, hmatch, h⟩ := Option.bind_eq_some_iff.mp h
  obtain ⟨route, hroute, h⟩ := Option.bind_eq_some_iff.mp h
  cases h
  obtain ⟨route', hroute', hparts⟩ := matchPath_eq_some hmatch
  cases hroute.symm.trans hroute'
  have hsame : route.method = method := by
    by_contra hne
    rw [Route.matchParts, if_pos hne] at hparts
    cases hparts
  have hmem := List.mem_of_getElem? hroute
  simp only [viewsetRoutesWithOptions, Router.route, Router.push, Router.new, List.nil_append, List.cons_append,
    List.mem_cons, List.not_mem_nil, or_false] at hmem
  rcases hmem with rfl | rfl | rfl | rfl | rfl | rfl
  · exact ⟨_, rfl, fun req => serves_list options req⟩
  · exact ⟨_, rfl, serves_create options⟩
  · exact ⟨_, rfl, serves_retrieve options⟩
  · exact ⟨_, rfl, serves_update options⟩
  · exact ⟨_, rfl, serves_update options⟩
  · exact absurd hsame.symm hmethod

variable {options : EndpointOptions m} {a : Arrival}

theorem serve_spec (permission : Permission m) (basePath : List Char) (lawful : B.cache.Lawful)
    (hthrottle : options.throttle = some limiter) (hmethod : a.request.method ≠ .delete) :
    let served := serve B (viewsetRoutesWithOptions .new basePath options permission) w a
    Refused (w.entered a.nanos) (served.1, served.2.outcome) ∧
        ((∀ pk, Anonymous permission { a.request with pk }) → served.2.accesses = []) ∨
      Admitted limiter served.2.identity (w.entered a.nanos) (served.1, served.2.outcome) := by
  intro served
  cases hendpoint : endpoint (viewsetRoutesWithOptions .new basePath options permission) a.path a.request.method with
  | none =>
    have hserved : served = serve B (viewsetRoutesWithOptions .new basePath options permission) w a := rfl
    rw [serve, hendpoint] at hserved
    rw [hserved]
    exact .inl ⟨⟨rfl, ⟨_, rfl⟩, ⟨rfl, fun _ _ _ => rfl⟩, 0, rfl⟩, fun _ => rfl⟩
  | some found =>
    obtain ⟨handler, pk⟩ := found
    obtain ⟨behind, rfl, hserves⟩ := endpoint_guarded hmethod hendpoint
    have hserved : served = serve B (viewsetRoutesWithOptions .new basePath options permission) w a := rfl
    rw [serve, hendpoint] at hserved
    rw [hserved]
    have hguarded := guarded_spec (w := w.entered a.nanos) lawful permission hthrottle hserves { a.request with pk } rfl
    exact hguarded.imp_left fun ⟨hrefused, hanonymous⟩ => ⟨hrefused, fun h => hanonymous (h pk)⟩

/-- One visit. -/
theorem serve_step [LawfulCounterJson] (permission : Permission m) (basePath : List Char) (lawful : B.cache.Lawful)
    (hthrottle : options.throttle = some limiter)
    (hlength : 0 < limiter.length) (hmethod : a.request.method ≠ .delete) (hnanos : w.nanos ≤ a.nanos)
    (h : Tracks limiter w times) :
    let served := serve B (viewsetRoutesWithOptions .new basePath options permission) w a
    served.1.nanos = a.nanos ∧ Answered permission a served.2 ∧
      ∃ times', Tracks limiter served.1 times' ∧ ∀ i, times' i = times i ++ countedTimes i [served.2] := by
  intro served
  have hserved : served.2.counted = !served.1.counted.isEmpty := rfl
  rcases serve_spec (w := w) permission basePath lawful hthrottle hmethod with
    ⟨hrefused, hanonymous⟩ | hadmitted
  · have huncounted : served.2.counted = false := by
      rw [hserved]
      exact congrArg (fun counted => !List.isEmpty counted) hrefused.uncounted.counted
    obtain ⟨n, hn⟩ := hrefused.lookups
    refine ⟨hrefused.nanos, ⟨fun _ => ⟨hrefused.error, ?_, hanonymous⟩, fun hcounted => ?_⟩, times,
      h.refused hnanos hrefused, fun i => ?_⟩
    · have haccesses : served.2.accesses = List.replicate n .lookup := hn
      simp [haccesses]
    · rw [huncounted] at hcounted
      cases hcounted
    · simp [countedTimes, huncounted]
  · have hcounted : served.2.counted = true := by
      rw [hserved]
      exact congrArg (fun counted => !List.isEmpty counted) hadmitted.counted.counted
    refine ⟨hadmitted.nanos, ⟨fun huncounted => ?_, fun _ => hadmitted.reaches⟩, _,
      h.admitted hlength hnanos hadmitted, fun i => ?_⟩
    · rw [hcounted] at huncounted
      cases huncounted
    · by_cases hi : i = served.2.identity
      · subst hi
        have hone : countedTimes served.2.identity [served.2] = [served.2.millis] := by simp [countedTimes, hcounted]
        rw [hone]
        exact Function.update_self ..
      · rw [Function.update_of_ne hi]
        simp [countedTimes, Ne.symm hi]

/-- By induction on the requests. -/
theorem visits_limited [LawfulCounterJson] (permission : Permission m) (basePath : List Char) (lawful : B.cache.Lawful)
    (hthrottle : options.throttle = some limiter)
    (hlength : 0 < limiter.length) {arrivals : List Arrival} (hsorted : arrivals.Pairwise (·.nanos ≤ ·.nanos))
    (hnanos : ∀ a ∈ arrivals, w.nanos ≤ a.nanos) (spared : ∀ a ∈ arrivals, a.request.method ≠ .delete)
    (h : Tracks limiter w times) (i : String) :
    let vs := visits B (viewsetRoutesWithOptions .new basePath options permission) w arrivals
    (times i ++ countedTimes i vs).Pairwise (· ≤ ·) ∧
      Limited limiter.length limiter.maxAttempts (times i ++ countedTimes i vs) ∧
      ∀ v ∈ vs, ∃ a ∈ arrivals, Answered permission a v := by
  induction arrivals generalizing w times with
  | nil =>
    simp only [visits, countedTimes, List.filter_nil, List.map_nil, List.append_nil]
    exact ⟨h.sorted i, h.limited i, fun _ hv => by cases hv⟩
  | cons a arrivals ih =>
    obtain ⟨hle, hsorted⟩ := List.pairwise_cons.mp hsorted
    obtain ⟨hnow, hanswered, times', htracks, htimes⟩ :=
      serve_step permission basePath lawful hthrottle hlength (spared a (by simp)) (hnanos a (by simp)) h
    obtain ⟨hs, hl, hall⟩ := ih hsorted (fun b hb => hnow.le.trans (hle b hb)) (fun b hb => spared b (by simp [hb])) htracks
    rw [htimes, List.append_assoc] at hs hl
    have happend : ∀ (v : Visit) (vs : List Visit), countedTimes i [v] ++ countedTimes i vs = countedTimes i (v :: vs) := by
      intro v vs
      simp only [countedTimes, ← List.map_append, ← List.filter_append, List.singleton_append]
    rw [happend] at hs hl
    refine ⟨hs, hl, fun v hv => ?_⟩
    rcases List.mem_cons.mp hv with rfl | hv
    · exact ⟨a, by simp, hanswered⟩
    · obtain ⟨b, hb, hv⟩ := hall v hv
      exact ⟨b, by simp [hb], hv⟩

/-- A run without a `DELETE`: in each window at most as many requests of an identity get to the statements of a handler
    as the rate allows, and the others are rejected. If no user is looked up, they do not touch the database at all. -/
theorem throttled_without_delete [LawfulCounterJson] (B : Backend m) (lawful : B.cache.Lawful) (permission : Permission m)
    (options : EndpointOptions m) (basePath : List Char) (scope rate : String) (limiter : RateLimiter)
    (hrate : RateLimiter.ofRate scope rate = some limiter) (hthrottle : options.throttle = some limiter)
    (w : World B.cache) (fresh : ∀ i t, w.nanos ≤ t → B.cache.entry w.cache t (limiter.counterKey i) = none)
    (arrivals : List Arrival) (hsorted : arrivals.Pairwise (·.nanos ≤ ·.nanos)) (hnanos : ∀ a ∈ arrivals, w.nanos ≤ a.nanos)
    (spared : ∀ a ∈ arrivals, a.request.method ≠ .delete) (identity : String) :
    let vs := visits B (viewsetRoutesWithOptions .new basePath options permission) w arrivals
    Throttled limiter.length limiter.maxAttempts (fun v => Access.statement ∈ v.accesses)
        (IsWindow limiter.length (countedTimes identity vs)) (vs.filter (·.identity == identity)) ∧
      ((∀ a ∈ arrivals, ∀ pk, Anonymous permission { a.request with pk }) →
        Throttled limiter.length limiter.maxAttempts (fun v => v.accesses ≠ [])
          (IsWindow limiter.length (countedTimes identity vs)) (vs.filter (·.identity == identity))) := by
  intro vs
  have hlength := length_pos hrate
  have htracks : Tracks limiter w fun _ => [] :=
    ⟨fun _ => .nil, fun _ _ ht => (by cases ht), fun _ => .nil, fun i t ht => .inl (fresh i t ht)⟩
  obtain ⟨hs, hl, hall⟩ := visits_limited permission basePath lawful hthrottle hlength hsorted
    hnanos spared htracks identity
  rw [List.nil_append] at hs hl
  refine ⟨throttled_of hlength ?_ ?_ hs hl, fun hanonymous => throttled_of hlength ?_ ?_ hs hl⟩
  · intro v hv hreaches
    obtain ⟨a, -, ha⟩ := hall v hv
    by_contra hcounted
    exact (ha.refused (eq_false_of_ne_true hcounted)).2.1 (of_decide_eq_true hreaches)
  · intro v hv hreaches
    obtain ⟨a, -, ha⟩ := hall v hv
    refine ha.rejected fun reply hreply hmem => ?_
    exact of_decide_eq_false hreaches hmem
  · intro v hv hreaches
    obtain ⟨a, hmem, ha⟩ := hall v hv
    by_contra hcounted
    exact of_decide_eq_true hreaches ((ha.refused (eq_false_of_ne_true hcounted)).2.2 (hanonymous a hmem))
  · intro v hv hreaches
    obtain ⟨a, -, ha⟩ := hall v hv
    refine ha.rejected fun reply hreply hmem => ?_
    rw [of_not_not (of_decide_eq_false hreaches)] at hmem
    cases hmem

end Visits

/-! ### Two deletes within one window -/

section Deletes
attribute [local instance] Wire.integers Fmt.decimal

/-- The text of a counter. -/
@[reducible] def CounterJson.text : CounterJson where
  encode counter := Text.bytes ("[" ++ toString counter.1 ++ "," ++ toString counter.2 ++ "]")
  decode bytes :=
    match (Text.ofBytes? bytes).map String.toList with
    | some ('[' :: rest) =>
      match Text.digits? (rest.takeWhile (· ≠ ',')), Text.digits? (((rest.dropWhile (· ≠ ',')).drop 1).takeWhile (· ≠ ']')) with
      | some count, some start => .ok (count, start)
      | _, _ => .error "invalid type"
    | _ => .error "expected value"

attribute [local instance] CounterJson.text

instance CounterJson.text_lawful : LawfulCounterJson where
  decode_encode := by
    rintro ⟨count, start⟩
    have hcount := Text.span_digits count ',' rfl ((toString start).toList ++ [']'])
    have hstart := Text.span_digits start ']' rfl []
    have htext : ("[" ++ toString count ++ "," ++ toString start ++ "]").toList =
        '[' :: ((toString count).toList ++ ',' :: ((toString start).toList ++ [']'])) := by
      simp [String.toList_append]
    simp only [CounterJson.encode, CounterJson.decode, Text.ofBytes?_bytes, Option.map_some, htext, hcount.1, hcount.2,
      List.drop_succ_cons, List.drop_zero, hstart.1, Text.digits?_toString]

/-- A cache that forgets nothing before its time. -/
def mapCache : CacheBackend where
  State := String → Option (List UInt8 × Nat)
  get t key s := (s, .ok ((s key).bind fun (value, expiry) => if t < expiry then some value else none))
  set t key value ttl s := (fun key' => if key' = key then some (value, t + ttl) else s key', .ok ())
  entry s t key := (s key).bind fun (value, expiry) => if t < expiry then some value else none

theorem mapCache_lawful : mapCache.Lawful where
  get_value := by
    rintro t key s _ _ ⟨⟩
    rfl
  get_keeps _ _ _ _ _ _ := rfl
  set_entry := by
    rintro t key value ttl s _ t' ⟨⟩ ht
    by_cases hlive : t' < t + ttl
    · exact .inl (by simp [mapCache, hlive])
    · exact .inr ⟨Nat.not_lt.mp hlive, by simp [mapCache, hlive]⟩
  set_keeps := by
    rintro t key value ttl s _ _ t' key' ⟨⟩ ht hkey
    simp [mapCache, hkey]
  set_error := by
    rintro t key value ttl s _ e t' key' ⟨⟩

def posts : Backend postModel := ⟨plainServer, readPost, fun _ _ => none, fun _ _ => none, mapCache⟩

/-- One request a second. -/
def slowly : EndpointOptions postModel := { throttle := some ⟨"posts", 1, 1000000000⟩ }

def request (method : Method) : Arrival := ⟨0, "/posts/1".toList, ⟨method, [], ⟨id, none⟩, none, none, .error []⟩⟩

/-- The visits of requests for the first post that all come in at once. -/
def postVisits (methods : List Method) : List Visit :=
  visits posts (viewsetRoutesWithOptions .new "/posts".toList slowly AllowAny) ⟨fun _ => [], fun _ => none, 0, [], []⟩
    (methods.map request)

theorem delete_visits : ∃ outcome : Except Failure Reply,
    (postVisits [.delete, .delete]).filter (·.identity == "anon:unknown") =
      [⟨0, "anon:unknown", false, [.statement], outcome⟩, ⟨0, "anon:unknown", false, [.statement], outcome⟩] :=
  ⟨_, rfl⟩

/-- Two deletes reach the database, where one a second may. -/
theorem deletes_not_throttled : ¬∃ windows : Nat → Prop, Throttled 1000 1 (fun v => v.accesses ≠ []) windows
    ((postVisits [.delete, .delete]).filter (·.identity == "anon:unknown")) := by
  rintro ⟨windows, h⟩
  obtain ⟨outcome, hvisits⟩ := delete_visits
  rw [hvisits] at h
  obtain ⟨w, hw, hbegun, hopen⟩ := h.covered _ (List.mem_cons_self ..) rfl
  have hbounded := h.bounded w hw
  simp [inWindow, hbegun, hopen] at hbounded

/-- Two requests for a post: one is answered. -/
theorem gets_throttled : Throttled 1000 1 (fun v => v.accesses ≠ [])
    (IsWindow 1000 (countedTimes "anon:unknown" (postVisits [.get, .get])))
    ((postVisits [.get, .get]).filter (·.identity == "anon:unknown")) :=
  (throttled_without_delete posts mapCache_lawful AllowAny slowly "/posts".toList "posts" "1/second" ⟨"posts", 1, 1000000000⟩
    rfl rfl ⟨fun _ => [], fun _ => none, 0, [], []⟩ (fun _ _ _ => rfl) ([Method.get, .get].map request) (by simp [request])
    (by simp) (by simp [request]) "anon:unknown").2 fun a ha pk => by
      obtain ⟨method, -, rfl⟩ := List.mem_map.mp ha
      exact ⟨trivial, rfl, rfl⟩

end Deletes

end Djangors.Rest
