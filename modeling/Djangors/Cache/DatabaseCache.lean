import Djangors.Db
import Djangors.Lib.Program
import Mathlib.Logic.Function.Basic

/-! # The database cache

`DatabaseCache` (`djangors-cache/src/lib.rs`), whose entries are the rows of one table, and its calls side by side. -/

namespace Djangors.Cache

/-- A row of `djangors_cache_entries`, without its key. -/
structure Entry where
  value : List UInt8
  expiresAt : Option DateTime
deriving DecidableEq

/-- `expiry.is_none_or(|e| e > now)` -/
def Entry.isLive (now : DateTime) (entry : Entry) : Bool := entry.expiresAt.all (now.nanos < ·.nanos)

/-- The rows by their keys, and the clock. A table that is not there has no rows. -/
structure Store where
  entries : String → Option Entry
  clock : DateTime

/-! ### Statements -/

inductive CacheCall where
  | ensureTable
  | select (key : String)
  | upsert (key : String) (entry : Entry)
  | delete (key : String)
  /-- `Utc::now()` -/
  | now

namespace CacheCall

abbrev Result : CacheCall → Type
  | select _ => Option Entry
  | now => DateTime
  | ensureTable | upsert _ _ | delete _ => Unit

/-- The result, or the text of the backend's error. -/
abbrev Answer (call : CacheCall) : Type := Except String call.Result

/-- Runs a statement, which may fail. The server stores a time with its own precision. -/
def step (precision : DateTime → DateTime) : Option String → (call : CacheCall) → Store → Store × call.Answer
  | _, now, s => (s, .ok s.clock)
  | some e, ensureTable, s | some e, select _, s | some e, upsert _ _, s | some e, delete _, s => (s, .error e)
  | none, ensureTable, s => (s, .ok ())
  | none, select key, s => (s, .ok (s.entries key))
  | none, upsert key entry, s =>
    ({ s with entries := Function.update s.entries key (some { entry with expiresAt := entry.expiresAt.map precision }) },
      .ok ())
  | none, delete key, s => ({ s with entries := Function.update s.entries key none }, .ok ())

end CacheCall

/-! ### Methods -/

inductive CacheError where
  | backend (message : String)
deriving DecidableEq

/-- How a call ends other than by `Ok`. -/
inductive Halt where
  | error (e : CacheError)
  | panic
deriving DecidableEq

abbrev CacheAction (α : Type) := Fallible CacheCall.Answer Halt α

def ask (call : CacheCall) : CacheAction call.Result :=
  .call call fun answer => .done (answer.mapError fun message => .error (.backend message))

/-- The longest `chrono::Duration`, in nanoseconds. -/
def maxDuration : Nat := 9223372036854775807 * 1000000

/-- `DateTime::<Utc>::MAX_UTC` -/
def maxUtc : DateTime := ⟨8210266876799999999999⟩

/-- `now + chrono::Duration::from_std(ttl).unwrap_or_default()`, which panics behind the last date. -/
def expiry (now : DateTime) (ttl : Nat) : Option DateTime :=
  let later : DateTime := ⟨now.nanos + if ttl ≤ maxDuration then ttl else 0⟩
  if later.nanos ≤ maxUtc.nanos then some later else none

namespace DatabaseCache

def delete (key : String) : CacheAction Unit := do
  ask .ensureTable
  ask (.delete key)

def get (key : String) : CacheAction (Option (List UInt8)) := do
  ask .ensureTable
  let row : Option Entry ← ask (.select key)
  match row with
  | none => return none
  | some ⟨value, none⟩ => return some value
  | some ⟨value, some expiresAt⟩ =>
    let now : DateTime ← ask .now
    if now.nanos < expiresAt.nanos then return some value
    delete key
    return none

def set (key : String) (value : List UInt8) (ttl : Option Nat) : CacheAction Unit := do
  ask .ensureTable
  match ttl with
  | none => ask (.upsert key ⟨value, none⟩)
  | some ttl =>
    let now : DateTime ← ask .now
    let expiresAt ← Fallible.lift (match expiry now ttl with
      | some expiresAt => .ok expiresAt
      | none => .error .panic)
    ask (.upsert key ⟨value, some expiresAt⟩)

end DatabaseCache

/-! ### Calls side by side -/

inductive Request where
  | get (key : String)
  | set (key : String) (value : List UInt8) (ttl : Option Nat)
  | delete (key : String)

namespace Request

def action : Request → CacheAction (Option (List UInt8))
  | get key => DatabaseCache.get key
  | set key value ttl => do
    DatabaseCache.set key value ttl
    return none
  | delete key => do
    DatabaseCache.delete key
    return none

def isDelete : Request → Bool
  | delete _ => true
  | _ => false

end Request

/-- The store, for each call that has started what it still has to do, and the sets and deletes that have taken effect:
    the key with the entry that a set has stored, none for a delete. -/
structure Calls (ι : Type) where
  store : Store
  threads : ι → Option (CacheAction (Option (List UInt8)))
  effects : List (String × Option Entry)

namespace Calls

/-- A call starts or makes its next step, whose statement may fail, or time passes. -/
inductive Event (ι : Type) where
  | start (i : ι)
  | step (i : ι) (failure : Option String)
  | tick (clock : DateTime)

def start {ι : Type} (store : Store) : Calls ι := ⟨store, fun _ => none, []⟩

/-- What a statement of a call has for an effect. The `DELETE` of a `get` is none. -/
def effect (precision : DateTime → DateTime) (request : Request) : CacheCall → List (String × Option Entry)
  | .upsert key entry => [(key, some { entry with expiresAt := entry.expiresAt.map precision })]
  | .delete key => if request.isDelete then [(key, none)] else []
  | _ => []

/-- The set or delete of a key that has taken effect last. -/
def latest {ι : Type} (s : Calls ι) (key : String) : Option (Option Entry) := s.effects.reverse.lookup key

section Steps
variable {ι : Type} [DecidableEq ι] (precision : DateTime → DateTime) (request : ι → Request)

def advance (s : Calls ι) : Event ι → Option (Calls ι)
  | .start i =>
    match s.threads i with
    | none => some { s with threads := Function.update s.threads i (some (request i).action) }
    | some _ => none
  | .step i failure =>
    match s.threads i with
    | some (.call call rest) =>
      let (store, answer) := call.step precision failure s.store
      some {
        store
        threads := Function.update s.threads i (some (rest answer))
        effects := s.effects ++ if failure = none then effect precision (request i) call else [] }
    | _ => none
  | .tick clock => if s.store.clock.nanos ≤ clock.nanos then some { s with store := { s.store with clock } } else none

/-- The states that events reach from a state, where each event meets a condition. -/
inductive Reaches (meets : Calls ι → Event ι → Prop) (s₀ : Calls ι) : Calls ι → Prop
  | refl : Reaches meets s₀ s₀
  | event {s s' : Calls ι} {e : Event ι} (earlier : Reaches meets s₀ s) (ok : meets s e)
      (moved : s.advance precision request e = some s') : Reaches meets s₀ s'

/-- Runs events one after the other. -/
def run : List (Event ι) → Calls ι → Option (Calls ι)
  | [], s => some s
  | e :: rest, s => (s.advance precision request e).bind (run rest)

end Steps
end Calls

end Djangors.Cache
