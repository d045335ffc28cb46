import Djangors.Lib.Interleave
import Djangors.Theorems.CacheRuns

/-! # A read and a write at once

A `cached_all` looks up, fetches and stores; a write executes and invalidates. In one of the ten orders
of these steps the read has fetched before the write, and stores what it fetched after the write has
invalidated. -/

namespace Djangors.Orm
open Db ReadThrough

section Race
variable [Fmt] {σ ι : Type} {m : ModelMeta} (E : Engine σ ι) (order : HashOrder ι) (qs : QuerySet m)

/-- Every entry of the model's table, live or not, holds what its query returns now. -/
def Settled (m : ModelMeta) (store : CacheStore ι) (db : σ) : Prop :=
  ∀ (q : Readable E m) e, store.entries.lookup (q.1.key E.dialect) = some e → E.read db q = some e.value

/-- The read misses, fetches rows and has a time to live to store them for. -/
def Fills (store : CacheStore ι) (db : σ) (lookupAt putAt : Nat) (rows : List ι) : Prop :=
  lookupPhase E qs store lookupAt = .missed ∧ E.all db qs = .ok rows ∧ ∃ ttl ∈ qs.cacheTtl, putAt + ttl < instantLimit

variable {E order qs}

/-- The steps of `cached_all` one after the other are `cached_all`. -/
theorem cachedAll_eq_phases (s : CacheState σ ι) (now now' : Nat) :
    let out := putPhase E order qs s.store now' (fetchPhase E qs s.db (lookupPhase E qs s.store now))
    (cachedAll E order s qs now now').1.store = out.1 ∧ (cachedAll E order s qs now now').1.db = s.db ∧
      out.2 = .ended (cachedAll E order s qs now now').2 := by
  unfold cachedAll lookupPhase
  cases hcheck : qs.checkForUpdate E.dialect E.inTransaction with
  | error e => exact ⟨rfl, rfl, rfl⟩
  | ok u =>
    dsimp only
    cases hget : s.store.getCached now (qs.key E.dialect) with
    | some rows => exact ⟨rfl, rfl, rfl⟩
    | none =>
      dsimp only [fetchPhase]
      cases hfetch : E.fetchAll s.db (qs.sql E.dialect) (qs.params E.dialect) with
      | error e => exact ⟨rfl, rfl, rfl⟩
      | ok rows =>
        dsimp only [putPhase]
        cases httl : qs.cacheTtl with
        | none => exact ⟨rfl, rfl, rfl⟩
        | some ttl =>
          by_cases room : now' + ttl < instantLimit
          · simp [room]
          · simp [room]

variable (E qs) in
theorem lookupPhase_cases (store : CacheStore ι) (now : Nat) :
    (lookupPhase E qs store now = .missed ∧ qs.checkForUpdate E.dialect E.inTransaction = .ok ()) ∨
      ∃ result, lookupPhase E qs store now = .ended result := by
  unfold lookupPhase
  split
  · exact .inr ⟨_, rfl⟩
  · rename_i hcheck
    split
    · exact .inr ⟨_, rfl⟩
    · exact .inl ⟨rfl, hcheck⟩

theorem settled_of_clean {store : CacheStore ι} (db : σ)
    (clean : ∀ q : Readable E m, store.entries.lookup (q.1.key E.dialect) = none) : Settled E m store db := fun q e he => by
  rw [clean q] at he
  cases he

/-- Storing rows where nothing of the table is cached is right exactly when the query returns them. -/
theorem settled_putCached_iff [LawfulFmt] {store : CacheStore ι} {db : σ} {rows : List ι} {expiry : Option Nat}
    (check : qs.checkForUpdate E.dialect E.inTransaction = .ok ())
    (clean : ∀ q : Readable E m, store.entries.lookup (q.1.key E.dialect) = none) :
    Settled E m (store.putCached order (qs.key E.dialect) ⟨rows, expiry⟩) db ↔ E.all db qs = .ok rows := by
  constructor
  · intro settled
    exact read_eq_some.mp (settled ⟨qs, check⟩ ⟨rows, expiry⟩ (Finmap.lookup_insert _))
  · intro hall q e he
    have put := lookup_putCached he
    by_cases hq : q.1.key E.dialect = qs.key E.dialect
    · rw [hq, Function.update_self] at put
      obtain rfl := Option.some.inj put
      obtain ⟨hsql, hparams⟩ := findKey_inj hq
      rw [all_eq check] at hall
      rw [read_eq_some, all_eq q.2, hsql, hparams, hall]
    · rw [Function.update_of_ne hq, clean q] at put
      cases put

/-- Where nothing of the table is cached, the end of a read is right exactly when the rows it fetched,
    from `db'`, are those its query returns now. -/
theorem settled_put_iff [LawfulFmt] {store looked : CacheStore ι} {db db' : σ} {lookupAt putAt : Nat}
    (clean : ∀ q : Readable E m, store.entries.lookup (q.1.key E.dialect) = none) :
    Settled E m (putPhase E order qs store putAt (fetchPhase E qs db' (lookupPhase E qs looked lookupAt))).1 db ↔
      ∀ rows, Fills E qs looked db' lookupAt putAt rows → E.all db qs = .ok rows := by
  rcases lookupPhase_cases E qs looked lookupAt with ⟨missed, check⟩ | ⟨result, ended⟩
  · rw [missed]
    unfold fetchPhase
    cases hfetch : E.fetchAll db' (qs.sql E.dialect) (qs.params E.dialect) with
    | error e =>
      refine iff_of_true (settled_of_clean db clean) fun rows fills => ?_
      have := (all_eq check).symm.trans fills.2.1
      rw [hfetch] at this
      cases this
    | ok rows =>
      have only {rows' : List ι} (fills : Fills E qs looked db' lookupAt putAt rows') : rows' = rows := by
        have := (all_eq check).symm.trans fills.2.1
        rw [hfetch] at this
        exact (Except.ok.inj this).symm
      dsimp only [putPhase]
      cases httl : qs.cacheTtl with
      | none =>
        refine iff_of_true (settled_of_clean db clean) fun rows ⟨_, _, ttl, hmem, _⟩ => ?_
        rw [httl] at hmem
        cases hmem
      | some ttl =>
        by_cases room : putAt + ttl < instantLimit
        · simp only [room, if_true]
          rw [settled_putCached_iff check clean]
          refine ⟨fun hall rows' fills => only fills ▸ hall, fun right => right rows ⟨missed, ?_, ttl, httl, room⟩⟩
          rw [all_eq check, hfetch]
        · simp only [room, if_false]
          refine iff_of_true (settled_of_clean db clean) fun rows ⟨_, _, ttl', hmem, room'⟩ => ?_
          obtain rfl : ttl = ttl' := Option.some.inj (httl.symm.trans hmem)
          exact absurd room' room
  · rw [ended]
    refine iff_of_true (settled_of_clean db clean) fun rows fills => ?_
    rw [fills.1] at ended
    cases ended

/-! ### All orders -/

/-- The order in which the fetch comes before the write and the store after it. -/
def overtaken : List RaceStep := [.lookup, .fetch, .execute, .invalidate, .put]

/-- When a read and a write that invalidates run at once, the cache is right in the end exactly unless
    the read fetched before the write, stored after it, and its query returns something else now. -/
theorem race_settled_iff [LawfulFmt] (op : WriteOp m) (times : RaceStep → Nat) (db : σ) (store : CacheStore ι)
    (schedule : List RaceStep) (interleaved : Interleaved [.lookup, .fetch, .put] [.execute, .invalidate] schedule)
    (invalidates : (op.run E db).invalidated = true) :
    let final := (⟨db, store, .start, none⟩ : Race σ ι).run E order qs op times schedule
    Settled E m final.store final.db ↔
      ¬(schedule = overtaken ∧ ∃ rows, Fills E qs store db (times .lookup) (times .put) rows ∧
        E.all (op.run E db).db qs ≠ .ok rows) := by
  have clean (s : CacheStore ι) (q : Readable E m) :
      (s.invalidateTable m.tableName).entries.lookup (q.1.key E.dialect) = none := lookup_invalidateTable s _ _ _
  -- the invalidation comes last: it drops what the read stored
  have dropped {s : CacheStore ι} {db' : σ} (hs : schedule ≠ overtaken) :
      Settled E m (s.invalidateTable m.tableName) db' ↔ ¬(schedule = overtaken ∧ ∃ rows,
        Fills E qs store db (times .lookup) (times .put) rows ∧ E.all (op.run E db).db qs ≠ .ok rows) :=
    iff_of_true (settled_of_clean _ (clean s)) fun h => hs h.1
  -- the read stores last, what it fetched after the write
  have fresh {s looked : CacheStore ι} {at_ : Nat} (hs : schedule ≠ overtaken) :
      Settled E m (putPhase E order qs (s.invalidateTable m.tableName) (times .put)
        (fetchPhase E qs (op.run E db).db (lookupPhase E qs looked at_))).1 (op.run E db).db ↔
      ¬(schedule = overtaken ∧ ∃ rows, Fills E qs store db (times .lookup) (times .put) rows ∧
        E.all (op.run E db).db qs ≠ .ok rows) :=
    iff_of_true ((settled_put_iff (clean s)).mpr fun rows fills => fills.2.1) fun h => hs h.1
  have schedules := mem_interleavings.mpr interleaved
  simp only [interleavings, List.map_cons, List.map_nil, List.cons_append, List.nil_append, List.mem_cons,
    List.not_mem_nil, or_false] at schedules
  rcases schedules with rfl | rfl | rfl | rfl | rfl | rfl | rfl | rfl | rfl | rfl <;>
    simp only [Race.run, List.foldl_cons, List.foldl_nil, Race.step, invalidates, if_true]
  · exact dropped (by decide)
  · exact dropped (by decide)
  · rw [settled_put_iff (clean store)]
    simp only [overtaken, true_and]
    push Not
    rfl
  · exact dropped (by decide)
  · exact fresh (by decide)
  · exact fresh (by decide)
  · exact dropped (by decide)
  · exact fresh (by decide)
  · exact fresh (by decide)
  · exact fresh (by decide)

end Race

/-! ### The post's title again -/

/-- The derived `update` of the post. -/
def retitle : WriteOp titleMeta := .updateRow [("title", .text "new")] "id" (.i64 1)

/-- The step number in `overtaken`, as a time. -/
def raceTimes : RaceStep → Nat
  | .lookup => 1
  | .fetch => 2
  | .execute => 3
  | .invalidate => 4
  | .put => 5

def raceOf (schedule : List RaceStep) : Race String String :=
  @Race.run .decimal _ _ titleMeta titleEngine someOrder cachedPosts retitle raceTimes ⟨"old", ⟨∅, 10000⟩, .start, none⟩ schedule

/-- A read that stores between the write and its invalidation leaves the cache right. -/
theorem interruptedWrite_settled : @Settled .decimal _ _ titleEngine titleMeta
    (raceOf [.lookup, .fetch, .execute, .put, .invalidate]).store
    (raceOf [.lookup, .fetch, .execute, .put, .invalidate]).db :=
  (@race_settled_iff .decimal _ _ _ titleEngine someOrder cachedPosts Fmt.decimal_lawful retitle raceTimes "old" _ _
    (.left (.left (.right (.left (.right .nil))))) (by decide)).mpr fun h => absurd h.1 (by decide)

/-- A read that fetched before the write and stores after it leaves the old title: it is what the next
    cached read returns. -/
theorem overtakenRead_stale : Interleaved [.lookup, .fetch, .put] [.execute, .invalidate] overtaken ∧
    (@cachedAll .decimal _ _ _ titleEngine someOrder ⟨(raceOf overtaken).db, (raceOf overtaken).store, 5⟩ cachedPosts 6 6).2
      = .ok ["old"] ∧
    @Engine.all .decimal _ _ _ titleEngine (raceOf overtaken).db cachedPosts = .ok ["new"] ∧
    ¬@Settled .decimal _ _ titleEngine titleMeta (raceOf overtaken).store (raceOf overtaken).db := by
  refine ⟨.left (.left (.right (.right (.left .nil)))), by rfl, by rfl, fun settled => ?_⟩
  have fresh := settled ⟨cachedPosts, rfl⟩ ⟨["old"], some (5 + 60 * 10 ^ 9)⟩ (by rfl)
  exact absurd fresh (by decide)

end Djangors.Orm
