import Djangors.Lib.Program
import Djangors.Rest.Viewsets

/-! # Throttling

What the handlers of a view set wait for, the permission policies (`djangors-rest/src/permissions.rs`), the rate limiter
(`djangors-core/src/ratelimit.rs`) and the throttle of a view set (`djangors-rest/src/throttling.rs`). -/

namespace Djangors.Rest
open Db Http Orm Sql

/-! ### Requests and calls -/

/-- A request with the user of its session, the `pk` of its path and what serde_json makes of its body. -/
structure ApiRequest where
  method : Method
  headers : HeaderMap
  query : Query
  sessionUser : Option Int
  pk : Option (List Char)
  body : Except (List Char) (Json F64)

def ApiRequest.header (req : ApiRequest) (name : String) : Option (List UInt8) := req.headers.get name.toList

/-- A user that is active. -/
structure User where
  id : Int
  isStaff : Bool
  isSuperuser : Bool

/-- How rows become instances of a model. -/
abbrev FromRow (m : Model) := Row Cell → Except OrmError m.Instance

/-- What a handler waits for. -/
inductive ViewCall (m : Model) where
  | sessionUser (id : Int)
  | tokenUser (key : String)
  | now
  | cacheGet (key : String)
  | cacheSet (key : String) (value : List UInt8) (ttl : Nat)
  /-- The statements of a list endpoint. -/
  | list (listing : Server → Tables Cell → FromRow m → Except Failure (Envelope (Json F64)))
  | get (qs : QuerySet m.info)
  | insertRaw (values : List (String × Value))
  | update (qs : QuerySet m.info) (sets : List (String × SetExpr))
  | deleteByPk (pk : Int)

namespace ViewCall
variable {m : Model}

abbrev Answer : ViewCall m → Type
  | sessionUser _ | tokenUser _ => Option User
  | now => Nat
  | cacheGet _ => Except String (Option (List UInt8))
  | cacheSet _ _ _ => Except String Unit
  | list _ => Except Failure (Envelope (Json F64))
  | get _ => Except OrmError m.Instance
  | insertRaw _ => Except Stop Int
  | update _ _ => Except OrmError Nat
  | deleteByPk _ => Except Stop Nat

/-- Whether a call runs statements of a view set. -/
def isStatement : ViewCall m → Bool
  | list _ | get _ | insertRaw _ | update _ _ | deleteByPk _ => true
  | _ => false

/-- Whether a call looks a user up. -/
def isLookup : ViewCall m → Bool
  | sessionUser _ | tokenUser _ => true
  | _ => false

end ViewCall

abbrev Action (m : Model) (α : Type) := Fallible (ViewCall.Answer (m := m)) Failure α

section Actions
variable {m : Model} {α : Type}

def ask (call : ViewCall m) : Action m call.Answer := .call call fun answer => .done (.ok answer)

def fail (error : DjangorsError) : Action m α := Fallible.lift (.error (.error error))

def orFail (result : Except DjangorsError α) : Action m α := Fallible.lift (orFailure result)

end Actions

/-! ### Running a call -/

/-- `Cache`: what `get` and `set` do at a time, which is in nanoseconds as is the time to live, and what is in it. -/
structure CacheBackend where
  State : Type
  get : Nat → String → State → State × Except String (Option (List UInt8))
  set : Nat → String → List UInt8 → Nat → State → State × Except String Unit
  entry : State → Nat → String → Option (List UInt8)

/-- A cache keeps an entry until it expires, and a `set` that fails leaves what there is. -/
structure CacheBackend.Lawful (C : CacheBackend) : Prop where
  get_value : ∀ t key s s' value, C.get t key s = (s', .ok value) → value = C.entry s t key
  get_keeps : ∀ t key s t' key', t ≤ t' → C.entry (C.get t key s).1 t' key' = C.entry s t' key'
  set_entry : ∀ t key value ttl s s' t', C.set t key value ttl s = (s', .ok ()) → t ≤ t' →
    C.entry s' t' key = some value ∨ t + ttl ≤ t' ∧ C.entry s' t' key = none
  set_keeps : ∀ t key value ttl s s' result t' key', C.set t key value ttl s = (s', result) → t ≤ t' → key' ≠ key →
    C.entry s' t' key' = C.entry s t' key'
  set_error : ∀ t key value ttl s s' e t' key', C.set t key value ttl s = (s', .error e) → t ≤ t' →
    C.entry s' t' key' = C.entry s t' key'

/-- What a view set runs on. The tables hold the users of sessions and of tokens. -/
structure Backend (m : Model) where
  server : Server
  fromRow : FromRow m
  userById : Tables Cell → Int → Option User
  userByToken : Tables Cell → String → Option User
  cache : CacheBackend

/-- An access to the database. -/
inductive Access where
  | lookup
  | statement
  deriving DecidableEq

/-- The tables, the cache and the clock, with the accesses to the database and the keys whose counters have been
    raised. -/
structure World (C : CacheBackend) where
  tables : Tables Cell
  cache : C.State
  nanos : Nat
  accesses : List Access
  counted : List String

section Exec
variable [Fmt] {m : Model}

/-- `QuerySet::get` -/
def getOne (S : Server) (db : Tables Cell) (fromRow : FromRow m) (qs : QuerySet m.info) : Except OrmError m.Instance := do
  match ← all S db (instances m fromRow) (qs.withLimit 2) with
  | [] => .error (.notFound m.info.structName)
  | [item] => return item
  | _ => .error (.multipleObjectsReturned m.info.structName)

/-- `QuerySet::insert_raw` -/
def runInsertRaw (S : Server) (db : Tables Cell) (values : List (String × Value)) : Tables Cell × Except Stop Int :=
  match QuerySet.insertRaw m.info values with
  | .error e => (db, .error e)
  | .ok insert =>
    match S.runInsertOnce db insert with
    | .error e => (db, .error (.err e))
    | .ok (after, rows) => (after, (Server.returnedPk insert.returning rows).mapError .err)

/-- The tables after a write, which are as they were when it fails. -/
def written {ε α : Type} (db : Tables Cell) : Except ε (Tables Cell × α) → Tables Cell × Except ε α
  | .ok (after, a) => (after, .ok a)
  | .error e => (db, .error e)

/-- `QuerySet::update` -/
def runUpdate (S : Server) (db : Tables Cell) (qs : QuerySet m.info) (sets : List (String × SetExpr)) :
    Tables Cell × Except OrmError Nat :=
  written db ((qs.update S.dialect sets).bind (S.runUpdate db))

/-- `QuerySet::delete_by_pk` -/
def runDeleteByPk (m : Model) (S : Server) (db : Tables Cell) (pk : Int) : Tables Cell × Except Stop Nat :=
  written db ((QuerySet.deleteByPk m.info pk).bind fun s => (S.runDelete db s).mapError .err)

/-- The world after statements of a view set. -/
def World.ran {C : CacheBackend} (w : World C) (tables : Tables Cell) : World C :=
  { w with tables, accesses := w.accesses ++ [.statement] }

/-- Runs a call. -/
def exec (B : Backend m) : (call : ViewCall m) → World B.cache → World B.cache × call.Answer
  | .sessionUser id, w => ({ w with accesses := w.accesses ++ [.lookup] }, B.userById w.tables id)
  | .tokenUser key, w => ({ w with accesses := w.accesses ++ [.lookup] }, B.userByToken w.tables key)
  | .now, w => (w, w.nanos / 1000000)
  | .cacheGet key, w =>
    let (cache, answer) := B.cache.get w.nanos key w.cache
    ({ w with cache }, answer)
  | .cacheSet key value ttl, w =>
    match B.cache.set w.nanos key value ttl w.cache with
    | (cache, .ok ()) => ({ w with cache, counted := w.counted ++ [key] }, .ok ())
    | (cache, .error e) => ({ w with cache }, .error e)
  | .list listing, w => (w.ran w.tables, listing B.server w.tables B.fromRow)
  | .get qs, w => (w.ran w.tables, getOne B.server w.tables B.fromRow qs)
  | .insertRaw values, w =>
    let (after, answer) := runInsertRaw (m := m) B.server w.tables values
    (w.ran after, answer)
  | .update qs sets, w =>
    let (after, answer) := runUpdate B.server w.tables qs sets
    (w.ran after, answer)
  | .deleteByPk pk, w =>
    let (after, answer) := runDeleteByPk m B.server w.tables pk
    (w.ran after, answer)

end Exec

/-! ### Users and permissions -/

section Users
variable {m : Model}

/-- The key of `TokenAuth`. -/
def tokenKey (req : ApiRequest) : Option String :=
  ((req.header "authorization").bind toStr).bind fun value =>
    if "Token ".toList.isPrefixOf value then
      let key := value.drop "Token ".length
      if key ≠ [] ∧ !key.any Text.isWhitespace then some (String.ofList key) else none
    else none

/-- `TokenAuth::from_request(req).ok()` -/
def tokenAuth (req : ApiRequest) : Program (ViewCall.Answer (m := m)) (Option User) :=
  match tokenKey req with
  | some key => .call (.tokenUser key) .done
  | none => .done none

/-- `current_user` -/
def currentUser (req : ApiRequest) : Program (ViewCall.Answer (m := m)) (Option User) :=
  match req.sessionUser with
  | some id => .call (.sessionUser id) fun
    | some user => .done (some user)
    | none => tokenAuth req
  | none => tokenAuth req

/-- `Permission`: a policy, which may look up users. -/
structure Permission (m : Model) where
  hasPermission : ApiRequest → Program (ViewCall.Answer (m := m)) Bool
  looksUp : ∀ req, (hasPermission req).Only (·.isLookup)

def permit (decide : ApiRequest → Bool) : Permission m := ⟨fun req => .done (decide req), fun _ => trivial⟩

def AllowAny : Permission m := permit fun _ => true

theorem tokenAuth_only (req : ApiRequest) : (tokenAuth (m := m) req).Only (·.isLookup) := by
  rw [tokenAuth]
  split
  · exact ⟨rfl, fun _ => trivial⟩
  · trivial

theorem currentUser_only (req : ApiRequest) : (currentUser (m := m) req).Only (·.isLookup) := by
  rw [currentUser]
  split
  · refine ⟨rfl, fun user => ?_⟩
    cases user with
    | some user => trivial
    | none => exact tokenAuth_only req
  · exact tokenAuth_only req

/-- A policy that asks for the user of a request. -/
def permitUser (decide : Option User → Bool) : Permission m :=
  ⟨fun req => (currentUser req).bind fun user => .done (decide user), fun req =>
    (currentUser_only req).bind fun _ => trivial⟩

/-- It asks for a session, and else for a token, as `current_user` does. -/
def IsAuthenticated : Permission m := permitUser Option.isSome

def IsStaff : Permission m := permitUser (·.any (·.isStaff))

def IsSuperuser : Permission m := permitUser (·.any (·.isSuperuser))

end Users

/-! ### The throttle -/

/-- How serde_json writes a count with the start of its window, and reads them. -/
class CounterJson where
  encode : Nat × Nat → List UInt8
  decode : List UInt8 → Except String (Nat × Nat)

/-- What is written is read back. -/
class LawfulCounterJson [CounterJson] : Prop where
  decode_encode : ∀ counter, CounterJson.decode (CounterJson.encode counter) = .ok counter

/-- A window is in nanoseconds. -/
structure RateLimiter where
  name : String
  maxAttempts : Nat
  window : Nat

section Limiter
variable {m : Model}

/-- `ByIp::key` -/
def byIp (req : ApiRequest) : String :=
  let value := (((req.header "x-forwarded-for").or (req.header "x-real-ip")).bind toStr).getD "unknown".toList
  String.ofList (Text.trim (value.takeWhile (· ≠ ',')))

/-- `ByUserOrIp::key` -/
def byUserOrIp (req : ApiRequest) : Program (ViewCall.Answer (m := m)) String :=
  (currentUser req).bind fun
    | some user => .done ("user:" ++ toString user.id)
    | none => .done ("anon:" ++ byIp req)

/-- The key of the counter of an identity. -/
def RateLimiter.counterKey (limiter : RateLimiter) (identity : String) : String :=
  "ratelimit:" ++ limiter.name ++ ":" ++ identity

/-- `map_err(|e| DjangorsError::Internal(e.to_string()))` -/
def orInternal {α : Type} (result : Except String α) : Action m α :=
  orFail (result.mapError fun message => .internal message.toList)

/-- The counter of the window at hand: `state.filter(..).unwrap_or((0, now))`. -/
def RateLimiter.counterAt (limiter : RateLimiter) (now : Nat) (state : Option (Nat × Nat)) : Nat × Nat :=
  (state.filter fun counter => now - counter.2 < limiter.window / 1000000).getD (0, now)

/-- `RateLimiter::check`, from the identity on. -/
def RateLimiter.count [CounterJson] (limiter : RateLimiter) (identity : String) : Action m Unit := do
  let now : Nat ← ask .now
  let stored ← ask (.cacheGet (limiter.counterKey identity))
  let stored : Option (List UInt8) ← orInternal stored
  let state ← orInternal (stored.mapM CounterJson.decode)
  let (count, start) := limiter.counterAt now state
  if limiter.maxAttempts ≤ count then
    fail (.tooManyRequests "rate limit exceeded".toList)
  else do
    let stored ← ask (.cacheSet (limiter.counterKey identity) (CounterJson.encode (count + 1, start)) limiter.window)
    orInternal stored

/-- `Throttle::check`: the limiter counts by `ByUserOrIp`. -/
def RateLimiter.check [CounterJson] (limiter : RateLimiter) (req : ApiRequest) : Action m Unit :=
  (byUserOrIp req).bind limiter.count

end Limiter

/-- The length of a period in nanoseconds. -/
def periodLength (period : String) : Option Nat :=
  if period ∈ ["s", "sec", "second"] then some 1000000000
  else if period ∈ ["m", "min", "minute"] then some (60 * 1000000000)
  else if period ∈ ["h", "hr", "hour"] then some (60 * 60 * 1000000000)
  else if period ∈ ["d", "day"] then some (24 * 60 * 60 * 1000000000)
  else none

/-- `parse_rate` -/
def parseRate (rate : String) : Option (Nat × Nat) :=
  if '/' ∈ rate.toList then do
    let count ← Text.parseUnsigned (2 ^ 32) (Text.trim (rate.toList.takeWhile (· ≠ '/')))
    let period := Text.trim ((rate.toList.dropWhile (· ≠ '/')).drop 1)
    -- One plural `s` is dropped, unless it is all there is.
    let singular := if period.getLast? = some 's' ∧ period.dropLast ≠ [] then period.dropLast else period
    let window ← periodLength (String.ofList singular)
    return (count, window)
  else none

/-- `Throttle::new` -/
def RateLimiter.ofRate (scope rate : String) : Option RateLimiter :=
  (parseRate rate).map fun (maxAttempts, window) => ⟨scope, maxAttempts, window⟩

end Djangors.Rest
