import Djangors.Cache.DatabaseCache
import Djangors.Lib.Caching

/-! # The cache in memory, and runs of both caches

`InMemoryCache` (`djangors-cache/src/lib.rs`) around a cache of entries with a capacity. The calls of a run come
one after the other, each at one time. -/

namespace Djangors.Cache

/-- An entry with the instant, in nanoseconds, from which it is stale. -/
abbrev MemoryEntry := TtlMap.Entry (List UInt8)

/-- The cache that holds the entries. -/
structure MokaCache where
  State : Type
  build : (maxCapacity : Nat) → State
  get : State → String → Option MemoryEntry
  insert : State → String → MemoryEntry → State
  invalidate : State → String → State

/-- No more than so many keys hold something, the given one included. -/
def Fits (maxCapacity : Nat) (held : String → Option MemoryEntry) (key : String) : Prop :=
  ∃ keys : List String, keys.length ≤ maxCapacity ∧ ∀ key', key' = key ∨ held key' ≠ none → key' ∈ keys

/-- As long as what it holds fits, the cache is a map. -/
structure MokaCache.Lawful (moka : MokaCache) (maxCapacity : Nat) : Prop where
  build : moka.get (moka.build maxCapacity) = fun _ => none
  insert : ∀ s key entry, Fits maxCapacity (moka.get s) key →
    moka.get (moka.insert s key entry) = Function.update (moka.get s) key (some entry)
  invalidate : ∀ s key, moka.get (moka.invalidate s key) = Function.update (moka.get s) key none

/-- The instant from which on none can be represented: its seconds are an `i64`. -/
def instantEnd : Int := 9223372036854775808000000000

/-- `Instant::now() + t`, which panics when that is no instant. -/
def addInstant (now : Int) (ttl : Nat) : Option Int := if now + ttl < instantEnd then some (now + ttl) else none

namespace InMemoryCache
variable (moka : MokaCache)

def get (now : Int) (key : String) (s : moka.State) : Option (List UInt8) :=
  (moka.get s key).bind fun entry => if entry.expiresAt.all (now < ·) then some entry.value else none

def set (now : Int) (key : String) (value : List UInt8) (ttl : Option Nat) (s : moka.State) : Option moka.State :=
  match ttl with
  | none => some (moka.insert s key ⟨value, none⟩)
  | some t => (addInstant now t).map fun expiresAt => moka.insert s key ⟨value, some expiresAt⟩

def delete (key : String) (s : moka.State) : moka.State := moka.invalidate s key

end InMemoryCache

/-! ### Runs -/

abbrev CacheRequest := TtlMap.Call String (List UInt8)

/-- A call of the cache in memory; a call that panics has no result. -/
def InMemoryCache.serve (moka : MokaCache) (now : Int) (request : CacheRequest) (s : moka.State) :
    Option (moka.State × Option (List UInt8)) :=
  match request with
  | .get key => some (s, InMemoryCache.get moka now key s)
  | .set key value ttl => (InMemoryCache.set moka now key value ttl s).map fun s' => (s', none)
  | .delete key => some (InMemoryCache.delete moka key s, none)

/-- A database under the cache: the times that it gives back for the ones that are stored, and the texts that it
    does not take, with its errors. -/
structure CacheServer where
  precision : DateTime → DateTime
  refuses : String → Option String

def CacheServer.exec (server : CacheServer) (call : CacheCall) (s : Store) : Store × call.Answer :=
  match call with
  | .ensureTable => CacheCall.step server.precision none .ensureTable s
  | .select key => CacheCall.step server.precision (server.refuses key) (.select key) s
  | .upsert key entry => CacheCall.step server.precision (server.refuses key) (.upsert key entry) s
  | .delete key => CacheCall.step server.precision (server.refuses key) (.delete key) s
  | .now => CacheCall.step server.precision none .now s

def requestOf : CacheRequest → Request
  | .get key => .get key
  | .set key value ttl => .set key value ttl
  | .delete key => .delete key

/-- A call of the database cache; a call that panics or fails has no result. -/
def DatabaseCache.serve (server : CacheServer) (now : Int) (request : CacheRequest) (s : Store) :
    Option (Store × Option (List UInt8)) :=
  match (requestOf request).action.eval server.exec { s with clock := ⟨now⟩ } with
  | (s', .ok value) => some (s', value)
  | (_, .error _) => none

end Djangors.Cache
