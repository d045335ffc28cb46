import Djangors.Cache.InMemoryCache

/-! # The caches as maps with times to live

Both caches keep an entry until a time that they compute from the clock. The cache in memory has no instant for
a time too far ahead; the database cache takes a time to live that is too long for no time at all, and stores
times with the precision of the database. -/

namespace Djangors.Cache
open TtlMap (Map Meets Alike visible)

/-! ### Conditions -/

/-- In memory: below capacity, and the time to live ends at an instant. -/
def MemoryFine (maxCapacity : Nat) (held : Map String (List UInt8)) (now : Int) : CacheRequest → Prop
  | .set key _ ttl => Fits maxCapacity held key ∧ ∀ t ∈ ttl, now + t < instantEnd
  | _ => True

/-- In a database: it takes the key, the time to live is a `chrono::Duration`, and it ends at a time that is
    stored exactly. -/
def DatabaseFine (server : CacheServer) : Map String (List UInt8) → Int → CacheRequest → Prop
  | _, _, .get key | _, _, .delete key => server.refuses key = none
  | _, now, .set key _ ttl => server.refuses key = none ∧ ∀ t ∈ ttl, t ≤ maxDuration ∧ now + t ≤ maxUtc.nanos ∧
      server.precision ⟨now + t⟩ = ⟨now + t⟩

/-- Answers like the map that starts empty. -/
def InMemoryCache.Agrees (moka : MokaCache) (maxCapacity : Nat) (calls : List (Int × CacheRequest)) : Prop :=
  TtlMap.run (InMemoryCache.serve moka) calls (moka.build maxCapacity) = some (TtlMap.answers calls fun _ => none)

def DatabaseCache.Agrees (server : CacheServer) (calls : List (Int × CacheRequest)) : Prop :=
  TtlMap.run (DatabaseCache.serve server) calls ⟨fun _ => none, ⟨0⟩⟩ = some (TtlMap.answers calls fun _ => none)

/-! ### In memory -/

section Memory
variable {moka : MokaCache} {maxCapacity : Nat}

theorem memory_get (now : Int) (key : String) (s : moka.State) :
    InMemoryCache.get moka now key s = visible (moka.get s) now key := by
  rw [InMemoryCache.get, visible]
  cases moka.get s key with
  | none => rfl
  | some entry => by_cases h : entry.live now <;> simp_all [TtlMap.Entry.live, Option.filter]

theorem memory_stays (lawful : moka.Lawful maxCapacity) (now : Int) (request : CacheRequest) (s : moka.State)
    (fine : MemoryFine maxCapacity (moka.get s) now request) :
    ∃ s', InMemoryCache.serve moka now request s = some (s', (TtlMap.step (moka.get s) now request).2) ∧
      moka.get s' = (TtlMap.step (moka.get s) now request).1 := by
  cases request with
  | get key => exact ⟨s, by rw [InMemoryCache.serve, memory_get, TtlMap.step], rfl⟩
  | delete key => exact ⟨_, rfl, lawful.invalidate s key⟩
  | set key value ttl =>
    cases ttl with
    | none => exact ⟨_, rfl, lawful.insert s key _ fine.1⟩
    | some t =>
      have hinstant : addInstant now t = some (now + t) := if_pos (fine.2 t rfl)
      refine ⟨_, ?_, lawful.insert s key ⟨value, some (now + t)⟩ fine.1⟩
      rw [InMemoryCache.serve, InMemoryCache.set, hinstant]
      rfl

theorem memory_agrees (lawful : moka.Lawful maxCapacity) {calls : List (Int × CacheRequest)}
    (inOrder : (calls.map (·.1)).Pairwise (· ≤ ·)) (fine : Meets (MemoryFine maxCapacity) calls fun _ => none) :
    InMemoryCache.Agrees moka maxCapacity calls := by
  cases calls with
  | nil => rfl
  | cons call calls =>
    refine TtlMap.run_eq (fun _ s m => moka.get s = m) (fun _ _ _ _ _ h => h) ?_ (t := call.1) ?_ fine lawful.build
    · rintro t request s _ rfl hfine
      exact memory_stays lawful t request s hfine
    · exact List.pairwise_cons.mpr ⟨by simpa using (List.pairwise_cons.mp inOrder).1, inOrder⟩

end Memory

/-! ### In a database -/

section Database
variable {server : CacheServer}

/-- The entries of the table. -/
def Store.map (s : Store) : Map String (List UInt8) := fun key =>
  (s.entries key).map fun entry => ⟨entry.value, entry.expiresAt.map (·.nanos)⟩

theorem map_update (s : Store) (key : String) (entry : Option Entry) (clock : DateTime) :
    Store.map ⟨Function.update s.entries key entry, clock⟩ =
      Function.update s.map key (entry.map fun entry => ⟨entry.value, entry.expiresAt.map (·.nanos)⟩) := by
  funext key'
  by_cases h : key' = key
  · subst h
    simp [Store.map]
  · simp [Store.map, h]

section Statements
variable {s : Store} {key : String}

theorem ask_ensureTable : (ask .ensureTable).eval server.exec s = (s, .ok ()) := rfl

theorem ask_now : (ask .now).eval server.exec s = (s, .ok s.clock) := rfl

theorem ask_select (takes : server.refuses key = none) :
    (ask (.select key)).eval server.exec s = (s, .ok (s.entries key)) := by
  simp [ask, CacheServer.exec, takes, CacheCall.step, Except.mapError]

theorem ask_upsert (takes : server.refuses key = none) (entry : Entry) :
    (ask (.upsert key entry)).eval server.exec s = ({ s with
      entries := Function.update s.entries key (some { entry with expiresAt := entry.expiresAt.map server.precision }) },
      .ok ()) := by
  simp [ask, CacheServer.exec, takes, CacheCall.step, Except.mapError]

theorem ask_delete (takes : server.refuses key = none) : (DatabaseCache.delete key).eval server.exec s =
    ({ s with entries := Function.update s.entries key none }, .ok ()) := by
  rw [DatabaseCache.delete, Fallible.eval_bind_ok ask_ensureTable]
  simp [ask, CacheServer.exec, takes, CacheCall.step, Except.mapError]

end Statements

/-- A call that succeeds has the result of its program. -/
theorem serve_eq {now : Int} {request : CacheRequest} {s s' : Store} {value : Option (List UInt8)}
    (h : (requestOf request).action.eval server.exec { s with clock := ⟨now⟩ } = (s', .ok value)) :
    DatabaseCache.serve server now request s = some (s', value) := by
  rw [DatabaseCache.serve, h]

/-- A `get` answers what the table shows, and drops nothing but an expired entry. -/
theorem database_get (now : Int) {key : String} (takes : server.refuses key = none) (s : Store) :
    ∃ s', DatabaseCache.serve server now (.get key) s = some (s', visible s.map now key) ∧
      (s'.map = s.map ∨ visible s.map now key = none ∧ s'.map = Function.update s.map key none) := by
  have hstart : (requestOf (.get key)).action = DatabaseCache.get key := rfl
  have hselect := ask_select (s := { s with clock := ⟨now⟩ }) takes
  cases hentry : s.entries key with
  | none =>
    have hnone : visible s.map now key = none := by simp [visible, Store.map, hentry]
    refine ⟨{ s with clock := ⟨now⟩ }, serve_eq ?_, .inl rfl⟩
    rw [hstart, DatabaseCache.get, Fallible.eval_bind_ok ask_ensureTable, Fallible.eval_bind_ok hselect, hentry, hnone]
    rfl
  | some entry =>
    obtain ⟨value, _ | expiresAt⟩ := entry
    · have hsome : visible s.map now key = some value := by
        simp [visible, Store.map, hentry, TtlMap.Entry.live, Option.filter]
      refine ⟨{ s with clock := ⟨now⟩ }, serve_eq ?_, .inl rfl⟩
      rw [hstart, DatabaseCache.get, Fallible.eval_bind_ok ask_ensureTable, Fallible.eval_bind_ok hselect, hentry, hsome]
      rfl
    · have hvisible : visible s.map now key = if now < expiresAt.nanos then some value else none := by
        by_cases hlive : now < expiresAt.nanos <;>
          simp [visible, Store.map, hentry, TtlMap.Entry.live, Option.filter, hlive]
      by_cases hlive : now < expiresAt.nanos
      · refine ⟨{ s with clock := ⟨now⟩ }, serve_eq ?_, .inl rfl⟩
        rw [hstart, DatabaseCache.get, Fallible.eval_bind_ok ask_ensureTable, Fallible.eval_bind_ok hselect, hentry, hvisible,
          if_pos hlive]
        simp only
        rw [Fallible.eval_bind_ok ask_now, if_pos hlive]
        rfl
      · refine ⟨_, serve_eq ?_, .inr ⟨by rw [hvisible, if_neg hlive], map_update s key none ⟨now⟩⟩⟩
        rw [hstart, DatabaseCache.get, Fallible.eval_bind_ok ask_ensureTable, Fallible.eval_bind_ok hselect, hentry, hvisible,
          if_neg hlive]
        simp only
        rw [Fallible.eval_bind_ok ask_now, if_neg hlive, Fallible.eval_bind_ok (ask_delete takes)]
        rfl

theorem database_delete (now : Int) {key : String} (takes : server.refuses key = none) (s : Store) :
    DatabaseCache.serve server now (.delete key) s = some (⟨Function.update s.entries key none, ⟨now⟩⟩, none) := by
  have hstart : (requestOf (.delete key)).action = (do
    DatabaseCache.delete key
    return none) := rfl
  refine serve_eq ?_
  rw [hstart, Fallible.eval_bind_ok (ask_delete takes)]
  rfl

theorem database_set {now : Int} {key : String} {value : List UInt8} {ttl : Option Nat} {held : Map String (List UInt8)}
    (fine : DatabaseFine server held now (.set key value ttl)) (s : Store) :
    DatabaseCache.serve server now (.set key value ttl) s =
      some (⟨Function.update s.entries key (some ⟨value, ttl.map fun t => ⟨now + t⟩⟩), ⟨now⟩⟩, none) := by
  have hstart : (requestOf (.set key value ttl)).action = (do
    DatabaseCache.set key value ttl
    return none) := rfl
  refine serve_eq ?_
  cases ttl with
  | none =>
    have hset : (DatabaseCache.set key value none).eval server.exec { s with clock := ⟨now⟩ } =
        (⟨Function.update s.entries key (some ⟨value, none⟩), ⟨now⟩⟩, .ok ()) := by
      rw [DatabaseCache.set, Fallible.eval_bind_ok ask_ensureTable]
      exact ask_upsert fine.1 _
    rw [hstart, Fallible.eval_bind_ok hset]
    rfl
  | some t =>
    obtain ⟨hduration, hdate, hexact⟩ := fine.2 t rfl
    have hexpiry : expiry ⟨now⟩ t = some ⟨now + t⟩ := by
      rw [expiry, if_pos hduration, if_pos hdate]
    have hset : (DatabaseCache.set key value (some t)).eval server.exec { s with clock := ⟨now⟩ } =
        (⟨Function.update s.entries key (some ⟨value, some ⟨now + t⟩⟩), ⟨now⟩⟩, .ok ()) := by
      rw [DatabaseCache.set, Fallible.eval_bind_ok ask_ensureTable, Fallible.eval_bind_ok ask_now, hexpiry]
      refine (Fallible.eval_bind_ok (a := ⟨now + t⟩) rfl).trans ((ask_upsert fine.1 _).trans ?_)
      rw [Option.map_some, hexact]
    rw [hstart, Fallible.eval_bind_ok hset]
    rfl

theorem database_stays {now : Int} {request : CacheRequest} {s : Store} {m : Map String (List UInt8)}
    (alike : Alike now s.map m) (fine : DatabaseFine server m now request) :
    ∃ s', DatabaseCache.serve server now request s = some (s', (TtlMap.step m now request).2) ∧
      Alike now s'.map (TtlMap.step m now request).1 := by
  cases request with
  | get key =>
    obtain ⟨s', hserve, hmap⟩ := database_get now fine s
    refine ⟨s', by rw [hserve, alike now key (Int.le_refl _), TtlMap.step], ?_⟩
    rcases hmap with hsame | ⟨hdead, hdropped⟩
    · rw [hsame]
      exact alike
    · rw [hdropped]
      exact alike.drop hdead
  | delete key =>
    refine ⟨_, database_delete now fine s, ?_⟩
    rw [map_update]
    exact alike.update key none
  | set key value ttl =>
    refine ⟨_, database_set fine s, ?_⟩
    rw [map_update]
    have hentry : (some (Entry.mk value (ttl.map fun t => ⟨now + t⟩))).map
        (fun entry => (⟨entry.value, entry.expiresAt.map (·.nanos)⟩ : TtlMap.Entry (List UInt8))) =
        some ⟨value, ttl.map (now + ·)⟩ := by
      cases ttl <;> rfl
    rw [hentry]
    exact alike.update key _

theorem database_agrees {calls : List (Int × CacheRequest)} (inOrder : (calls.map (·.1)).Pairwise (· ≤ ·))
    (fine : Meets (DatabaseFine server) calls fun _ => none) : DatabaseCache.Agrees server calls := by
  cases calls with
  | nil => rfl
  | cons call calls =>
    refine TtlMap.run_eq (fun t (s : Store) m => Alike t s.map m) (fun _ _ _ _ ht h => h.later ht)
      (fun _ _ _ _ h hfine => database_stays h hfine) (t := call.1) ?_ fine (Alike.refl _ _)
    exact List.pairwise_cons.mpr ⟨by simpa using (List.pairwise_cons.mp inOrder).1, inOrder⟩

end Database

/-- Where every time to live can be represented, both caches are maps with times to live. -/
theorem caches_are_ttl_maps (moka : MokaCache) (maxCapacity : Nat) (lawful : moka.Lawful maxCapacity) (server : CacheServer)
    (calls : List (Int × CacheRequest)) (inOrder : (calls.map (·.1)).Pairwise (· ≤ ·)) :
    (Meets (MemoryFine maxCapacity) calls (fun _ => none) → InMemoryCache.Agrees moka maxCapacity calls) ∧
      (Meets (DatabaseFine server) calls (fun _ => none) → DatabaseCache.Agrees server calls) :=
  ⟨memory_agrees lawful inOrder, database_agrees inOrder⟩

/-! ### Longest times to live -/

def mapMoka : MokaCache where
  State := String → Option MemoryEntry
  build _ _ := none
  get s := s
  insert s key entry := Function.update s key (some entry)
  invalidate s key := Function.update s key none

theorem mapMoka_lawful (maxCapacity : Nat) : mapMoka.Lawful maxCapacity where
  build := rfl
  insert _ _ _ _ := rfl
  invalidate _ _ := rfl

/-- A server that stores times as they are. -/
def exactServer : CacheServer where
  precision t := t
  refuses _ := none

def minute : Nat := 60000000000

/-- `Duration::MAX` -/
def longest : Nat := 18446744073709551615999999999

/-- A value that is stored for some time, and asked for at once and a minute later. -/
def storedFor (ttl : Nat) : List (Int × CacheRequest) :=
  [(0, .set "greeting" [104, 105] (some ttl)), (0, .get "greeting"), (minute, .get "greeting")]

theorem minute_agrees : InMemoryCache.Agrees mapMoka 1 (storedFor minute) ∧
    DatabaseCache.Agrees exactServer (storedFor minute) := by
  have htheorem := caches_are_ttl_maps mapMoka 1 (mapMoka_lawful 1) exactServer (storedFor minute) (by decide)
  refine ⟨htheorem.1 ⟨⟨⟨["greeting"], by decide, ?_⟩, ?_⟩, trivial, trivial, trivial⟩,
    htheorem.2 ⟨⟨rfl, ?_⟩, rfl, rfl, trivial⟩⟩
  · simp
  · rintro t ⟨⟩
    decide
  · rintro t ⟨⟩
    exact ⟨by decide, by decide, rfl⟩

/-- For the longest time to live one cache panics, and the other stores nothing that can be seen. -/
theorem longest_disagrees : ¬ InMemoryCache.Agrees mapMoka 1 (storedFor longest) ∧
    ¬ DatabaseCache.Agrees exactServer (storedFor longest) := by
  have hmemory : TtlMap.run (InMemoryCache.serve mapMoka) (storedFor longest) (mapMoka.build 1) = none := by
    simp [TtlMap.run, storedFor, InMemoryCache.serve, InMemoryCache.set, addInstant, instantEnd, longest]
  have hdatabase : TtlMap.run (DatabaseCache.serve exactServer) (storedFor longest) ⟨fun _ => none, ⟨0⟩⟩ =
      some [none, none, none] := by decide
  have hmap : TtlMap.answers (storedFor longest) (fun _ => none) = [none, some [104, 105], some [104, 105]] := by decide
  constructor
  · rw [InMemoryCache.Agrees, hmemory]
    simp
  · rw [DatabaseCache.Agrees, hdatabase, hmap]
    simp

end Djangors.Cache
