import Djangors.Lib.Except
import Djangors.Theorems.CacheKey

/-! # Reads through the cache

Over a run of reads and writes on one table, the cache stays coherent: each live entry of the table
holds what its query returns now. A write that calls `invalidate_table` drops the entries; one that does
not must leave the cached results as they were. -/

namespace Djangors.Orm
open Db ReadThrough

/-! ### The store -/

section Store
variable {ι : Type}

/-- Evicting removes entries and changes none. -/
theorem lookup_evict {order : HashOrder ι} {entries : CacheEntries ι} {target : Nat} {k : String} {e : CacheEntry ι}
    (h : (CacheStore.evict order entries target).lookup k = some e) : entries.lookup k = some e := by
  unfold CacheStore.evict at h
  generalize entries.keys.card - target = n at h
  induction n generalizing entries with
  | zero => exact h
  | succ n ih =>
    rw [Function.iterate_succ_apply] at h
    have one := ih h
    unfold CacheStore.evictOne at one
    split at one
    · rename_i key _
      by_cases hk : k = key
      · rw [hk, Finmap.lookup_erase] at one
        cases one
      · rwa [Finmap.lookup_erase_ne hk] at one
    · exact one

theorem lookup_setMaxCacheEntries {order : HashOrder ι} {s : CacheStore ι} {n : Nat} {k : String} {e : CacheEntry ι}
    (h : (s.setMaxCacheEntries order n).entries.lookup k = some e) : s.entries.lookup k = some e := by
  unfold CacheStore.setMaxCacheEntries at h
  dsimp only at h
  split at h
  · exact lookup_evict h
  · exact h

/-- Storing an entry makes it the one of its key; the other entries were there before. -/
theorem lookup_putCached {order : HashOrder ι} {s : CacheStore ι} {key k : String} {entry e : CacheEntry ι}
    (h : (s.putCached order key entry).entries.lookup k = some e) :
    Function.update s.entries.lookup key (some entry) k = some e := by
  unfold CacheStore.putCached at h
  dsimp only at h
  by_cases hk : k = key
  · subst hk
    rw [Function.update_self]
    rwa [Finmap.lookup_insert] at h
  · rw [Function.update_of_ne hk]
    rw [Finmap.lookup_insert_of_ne _ hk] at h
    split at h
    · exact lookup_evict h
    · exact h

theorem ofTable_findKey [Fmt] (table sql : String) (params : List Value) :
    CacheStore.ofTable table (findKey table sql params) = true := by
  simp [CacheStore.ofTable, findKey, String.toList_ofList, List.isPrefixOf_iff_prefix]

/-- After `invalidate_table` no query of the table is cached. -/
theorem lookup_invalidateTable [Fmt] (s : CacheStore ι) (table sql : String) (params : List Value) :
    (s.invalidateTable table).entries.lookup (findKey table sql params) = none := by
  rw [CacheStore.invalidateTable, Finmap.lookup_filter]
  simp [ofTable_findKey]

theorem lookup_of_getCached {s : CacheStore ι} {now : Nat} {key : String} {rows : List ι}
    (h : s.getCached now key = some rows) : ∃ e, s.entries.lookup key = some e ∧ e.live now = true ∧ e.value = rows := by
  unfold CacheStore.getCached at h
  split at h
  · cases h
  · rename_i e he
    split at h
    · exact ⟨e, he, ‹_›, Option.some.inj h⟩
    · cases h

theorem getCached_of_lookup {s : CacheStore ι} {now : Nat} {key : String} {e : CacheEntry ι}
    (he : s.entries.lookup key = some e) (hl : e.live now = true) : s.getCached now key = some e.value := by
  simp [CacheStore.getCached, he, hl]

end Store

/-! ### Statements -/

section Perform
variable {σ ι : Type} {E : Engine σ ι} {db : σ} {sql : String} {binds : List BindValue}
  {read : WriteResult → Except OrmError Unit}

theorem perform_invalidated (h : (E.perform db sql binds read).result = .ok ()) :
    (E.perform db sql binds read).invalidated = true := by
  unfold Engine.perform at h ⊢
  split at h
  · cases h
  · split at h
    · cases h
    · rfl

/-- A statement that the server refuses changes nothing, nor does one that is taken for failed because
    it affects no row. -/
theorem perform_unchanged (atomic : E.Atomic) (hread : ∀ r e, read r = .error e → r.affected = 0)
    (hi : (E.perform db sql binds read).invalidated = false) : (E.perform db sql binds read).db = db := by
  have error := atomic.error db sql binds
  have zero := atomic.zero db sql binds
  unfold Engine.perform at hi ⊢
  split at hi
  · rename_i db' e hw
    simpa [hw] using error
  · rename_i db' r hw
    split at hi
    · rename_i e he
      simpa [hw, he, hread r e he] using zero
    · cases hi

end Perform

/-! ### Runs -/

section Runs
variable [Fmt] {σ ι : Type} {m : ModelMeta} (E : Engine σ ι) (order : HashOrder ι)

/-- The query sets that may be read here: `check_for_update` lets them pass. -/
abbrev Readable (m : ModelMeta) := { qs : QuerySet m // qs.checkForUpdate E.dialect E.inTransaction = .ok () }

/-- The rows that a query set reads from the database, if it reads any. -/
def Engine.read (db : σ) (qs : Readable E m) : Option (List ι) :=
  match E.all db qs.1 with
  | .ok rows => some rows
  | .error _ => none

/-- Each live entry of the model's table holds what its query returns. -/
def CacheCoherent (m : ModelMeta) (s : CacheState σ ι) : Prop :=
  Coherent (fun qs : Readable E m => qs.1.key E.dialect) E.read s.store.entries.lookup s.clock s.db

/-- A read that fills the cache can add its time to live to the time. -/
def FillSafe (s : CacheState σ ι) (qs : QuerySet m) (now now' : Nat) : Prop :=
  s.store.getCached now (qs.key E.dialect) = none → (∃ rows, E.all s.db qs = .ok rows) →
    ∀ ttl ∈ qs.cacheTtl, now' + ttl < instantLimit

/-- A write that does not reach `invalidate_table` leaves the result of every query with a live entry
    as it was. -/
def WriteSafe (s : CacheState σ ι) (op : WriteOp m) (now : Nat) : Prop :=
  (op.run E s.db).invalidated = false → ∀ (qs : Readable E m) e,
    s.store.entries.lookup (qs.1.key E.dialect) = some e → e.live now = true →
      E.read (op.run E s.db).db qs = E.read s.db qs

/-- The states of a process that reads and writes one table from its start, when every fill and every
    write on the way is safe. -/
inductive CacheRun (m : ModelMeta) : CacheState σ ι → Prop
  | start (db : σ) (maxEntries clock : Nat) : CacheRun m ⟨db, ⟨∅, maxEntries⟩, clock⟩
  | read {s : CacheState σ ι} (run : CacheRun m s) (qs : QuerySet m) {now now' : Nat} (hc : s.clock ≤ now)
      (hn : now ≤ now') (safe : FillSafe E s qs now now') : CacheRun m (cachedAll E order s qs now now').1
  | write {s : CacheState σ ι} (run : CacheRun m s) (op : WriteOp m) {now : Nat} (hc : s.clock ≤ now)
      (safe : WriteSafe E s op now) : CacheRun m (s.write E op now)
  | resize {s : CacheState σ ι} (run : CacheRun m s) (n : Nat) :
      CacheRun m { s with store := s.store.setMaxCacheEntries order n }

variable {E order} {s : CacheState σ ι}

theorem CacheCoherent.later (h : CacheCoherent E m s) {now : Nat} (hc : s.clock ≤ now) :
    CacheCoherent E m { s with clock := now } := Coherent.mono h (fun _ _ he => he) hc

theorem all_eq {db : σ} {qs : QuerySet m} (h : qs.checkForUpdate E.dialect E.inTransaction = .ok ()) :
    E.all db qs = E.fetchAll db (qs.sql E.dialect) (qs.params E.dialect) := by
  simp [Engine.all, h, bind, Except.bind]

theorem read_eq_some {db : σ} {qs : Readable E m} {rows : List ι} : E.read db qs = some rows ↔ E.all db qs.1 = .ok rows := by
  unfold Engine.read
  cases E.all db qs.1 <;> simp

/-- A read keeps the cache coherent, and returns what `all` returns. -/
theorem CacheCoherent.cachedAll [LawfulFmt] (h : CacheCoherent E m s) {qs : QuerySet m} {now now' : Nat}
    (hc : s.clock ≤ now) (hn : now ≤ now') (safe : FillSafe E s qs now now') :
    CacheCoherent E m (cachedAll E order s qs now now').1 ∧
      (cachedAll E order s qs now now').2 = liftErr (E.all s.db qs) := by
  unfold Orm.cachedAll
  cases hcheck : qs.checkForUpdate E.dialect E.inTransaction with
  | error e => exact ⟨h.later hc, by simp [Engine.all, hcheck, bind, Except.bind, liftErr, Except.mapError]⟩
  | ok u =>
    rw [all_eq hcheck]
    cases hget : s.store.getCached now (qs.key E.dialect) with
    | some rows =>
      refine ⟨h.later hc, ?_⟩
      obtain ⟨e, he, hl, rfl⟩ := lookup_of_getCached hget
      have value := h ⟨qs, hcheck⟩ e he (Timed.live_mono hc hl)
      rw [read_eq_some, all_eq hcheck] at value
      rw [value]
      rfl
    | none =>
      cases hfetch : E.fetchAll s.db (qs.sql E.dialect) (qs.params E.dialect) with
      | error e => exact ⟨h.later hc, rfl⟩
      | ok rows =>
        cases httl : qs.cacheTtl with
        | none => exact ⟨h.later hc, rfl⟩
        | some ttl =>
          have room : now' + ttl < instantLimit :=
            safe hget ⟨rows, by rw [all_eq hcheck, hfetch]⟩ ttl httl
          simp only [room, if_true]
          refine ⟨?_, rfl⟩
          -- only the same query has the key, and it has just returned these rows
          refine Coherent.mono (Coherent.put (h.later (hc.trans hn)) (k := qs.key E.dialect)
            (e := ⟨rows, some (now' + ttl)⟩) fun q hq => ?_) (fun k e he => lookup_putCached he) le_rfl
          obtain ⟨hsql, hparams⟩ := findKey_inj hq
          rw [read_eq_some, all_eq q.2, hsql, hparams, hfetch]

/-- A safe write keeps the cache coherent. -/
theorem CacheCoherent.write (h : CacheCoherent E m s) {op : WriteOp m} {now : Nat} (hc : s.clock ≤ now)
    (safe : WriteSafe E s op now) : CacheCoherent E m (s.write E op now) := by
  cases hi : (op.run E s.db).invalidated with
  | true =>
    simp only [CacheCoherent, CacheState.write, hi, if_true]
    exact coherent_of_none fun _ => lookup_invalidateTable s.store m.tableName _ _
  | false =>
    simp only [CacheCoherent, CacheState.write, hi, Bool.false_eq_true, if_false]
    exact Coherent.write (h.later hc) fun q e he hl => safe hi q e he hl

theorem CacheRun.coherent [LawfulFmt] (run : CacheRun E order m s) : CacheCoherent E m s := by
  induction run with
  | start db maxEntries clock => exact coherent_of_none fun q => Finmap.lookup_empty _
  | read run qs hc hn safe ih => exact (ih.cachedAll hc hn safe).1
  | write run op hc safe ih => exact ih.write hc safe
  | resize run n ih => exact Coherent.mono ih (fun k e he => lookup_setMaxCacheEntries he) le_rfl

/-! ### Which writes are safe -/

/-- Every write that returns `Ok` invalidates the cache, but for `QuerySet::update` and the
    `bulk_create` of no items. -/
theorem run_invalidated {op : WriteOp m} {db : σ} (hu : op.isUpdate = false) (hr : (op.run E db).result = .ok ()) :
    (op.run E db).invalidated = true ∨ (op.run E db).db = db := by
  cases op with
  | update qs sets => cases hu
  | insertRaw values =>
    simp only [WriteOp.run] at hr ⊢
    cases hs : QuerySet.insertRaw m values with
    | error e => simp [hs] at hr
    | ok stmt =>
      simp only [hs] at hr
      exact .inl (perform_invalidated hr)
  | bulkCreate items =>
    simp only [WriteOp.run] at hr ⊢
    cases hs : QuerySet.bulkCreate m items with
    | error e => simp [hs] at hr
    | ok stmt =>
      cases stmt with
      | none => exact .inr rfl
      | some stmt =>
        simp only [hs] at hr
        exact .inl (perform_invalidated hr)
  | deleteByPk pk =>
    simp only [WriteOp.run] at hr ⊢
    cases hs : QuerySet.deleteByPk m pk with
    | error e => simp [hs] at hr
    | ok stmt =>
      simp only [hs] at hr
      exact .inl (perform_invalidated hr)
  | delete qs => exact .inl (perform_invalidated hr)
  | save cols => exact .inl (perform_invalidated hr)
  | updateRow cols pkColumn pk => exact .inl (perform_invalidated hr)
  | deleteRow pkColumn pk => exact .inl (perform_invalidated hr)

theorem writeSafe_of_ok {op : WriteOp m} {now : Nat} (hu : op.isUpdate = false)
    (hr : (op.run E s.db).result = .ok ()) : WriteSafe E s op now := by
  intro hi _ _ _ _
  rcases run_invalidated hu hr with h | h
  · rw [h] at hi
    cases hi
  · rw [h]

/-- A write that neither updates a query set nor reads rows back is safe however it ends. -/
theorem writeSafe_of_atomic (atomic : E.Atomic) {op : WriteOp m} {now : Nat} (hu : op.isUpdate = false)
    (hb : op.readsBack = false) : WriteSafe E s op now := by
  have affected {model : String} (r : WriteResult) (e : OrmError) (h : readAffected model r = .error e) :
      r.affected = 0 := by
    unfold readAffected at h
    split at h
    · assumption
    · cases h
  intro hi _ _ _ _
  suffices same : (op.run E s.db).db = s.db by rw [same]
  cases op with
  | update qs sets => cases hu
  | insertRaw values => cases hb
  | bulkCreate items => cases hb
  | save cols => cases hb
  | deleteByPk pk =>
    simp only [WriteOp.run] at hi ⊢
    cases hs : QuerySet.deleteByPk m pk with
    | error e => rfl
    | ok stmt =>
      simp only [hs] at hi
      exact perform_unchanged atomic (fun _ _ h => by cases h) hi
  | delete qs => exact perform_unchanged atomic (fun _ _ h => by cases h) hi
  | updateRow cols pkColumn pk => exact perform_unchanged atomic affected hi
  | deleteRow pkColumn pk => exact perform_unchanged atomic affected hi

/-! ### No stale reads -/

/-- At any point of a run whose fills and writes are safe, reading through the cache returns the rows
    that `all` returns at that moment. -/
theorem cachedAll_eq_all [LawfulFmt] (run : CacheRun E order m s) (qs : QuerySet m) {now now' : Nat}
    (hc : s.clock ≤ now) (hn : now ≤ now') (safe : FillSafe E s qs now now') :
    (cachedAll E order s qs now now').2 = liftErr (E.all s.db qs) :=
  (run.coherent.cachedAll hc hn safe).2

/-- The condition on writes is exact: after a write that is not safe, some cached read is stale. -/
theorem stale_of_not_writeSafe [LawfulFmt] (run : CacheRun E order m s) {op : WriteOp m} {now : Nat} (hc : s.clock ≤ now)
    (unsafeWrite : ¬WriteSafe E s op now) : ∃ qs : QuerySet m,
      (cachedAll E order (s.write E op now) qs now now).2 ≠ liftErr (E.all (s.write E op now).db qs) := by
  unfold WriteSafe at unsafeWrite
  push Not at unsafeWrite
  obtain ⟨hi, qs, e, he, hl, changed⟩ := unsafeWrite
  have before : E.read s.db qs = some e.value := run.coherent qs e he (Timed.live_mono hc hl)
  have kept : (s.write E op now).store = s.store := by simp [CacheState.write, hi]
  refine ⟨qs.1, fun same => changed ?_⟩
  -- the entry is still there and live, so the cached read returns the rows from before the write
  have cached : (cachedAll E order (s.write E op now) qs.1 now now).2 = .ok e.value := by
    simp only [cachedAll, qs.2, kept, getCached_of_lookup he hl]
  rw [before, read_eq_some]
  rw [cached] at same
  cases hall : E.all (s.write E op now).db qs.1 with
  | ok rows =>
    rw [hall] at same
    obtain rfl := Except.ok.inj same
    exact hall
  | error err =>
    rw [hall] at same
    cases same

end Runs

/-! ### One post and its title -/

/-- A database whose state is the title of the only post. An `UPDATE` binds the new title first. -/
def titleEngine : Engine String String where
  dialect := .postgres
  inTransaction := false
  query title _ _ := .ok [[("title", .text title)]]
  write title sql binds :=
    match "UPDATE".toList.isPrefixOf sql.toList, binds with
    | true, .text title' :: _ => (title', .ok ⟨1, []⟩)
    | _, _ => (title, .ok ⟨0, []⟩)
  fromRow row :=
    match row.lookup "title" with
    | some (.text title) => .ok title
    | _ => .error (.query "no title")
  pkOf _ := .ok 1

def someOrder : HashOrder String := ⟨fun _ => none, fun _ _ h => nomatch h⟩

def titleMeta : ModelMeta where
  structName := "Post"
  appLabel := "blog"
  tableName := "blog_post"
  fields := [{ name := "id", columnName := "id", kind := .bigInt, primaryKey := true, auto := true },
    { name := "title", columnName := "title", kind := .text }]

/-- `Post::objects().cache(Duration::from_secs(60))` -/
def cachedPosts : QuerySet titleMeta := ({} : QuerySet titleMeta).cache (60 * 10 ^ 9)

def beforeRead : CacheState String String := ⟨"old", ⟨∅, 10000⟩, 0⟩

/-- The posts have been read, and cached, at time 1. -/
def afterRead : CacheState String String := (@cachedAll .decimal _ _ _ titleEngine someOrder beforeRead cachedPosts 1 1).1

/-- The title is updated through the instance, which invalidates the cache. -/
def afterSave : CacheState String String :=
  @CacheState.write .decimal _ _ titleMeta titleEngine afterRead (.updateRow [("title", .text "new")] "id" (.i64 1)) 2

/-- The title is updated through the query set, which does not. -/
def afterUpdate : CacheState String String :=
  @CacheState.write .decimal _ _ titleMeta titleEngine afterRead (.update {} [("title", .literal (.text "new"))]) 2

/-- After the instance was updated, the cached read is the plain one. -/
theorem cachedAll_afterSave : (@cachedAll .decimal _ _ _ titleEngine someOrder afterSave cachedPosts 3 3).2 =
    liftErr (@Engine.all .decimal _ _ _ titleEngine afterSave.db cachedPosts) := by
  let fmt : Fmt := .decimal
  have lawful : LawfulFmt := Fmt.decimal_lawful
  have fill {now now' : Nat} (hn : now' < 10) (s : CacheState String String) : FillSafe titleEngine s cachedPosts now now' := by
    rintro - - ttl httl
    obtain rfl : 60 * 10 ^ 9 = ttl := Option.some.inj httl
    unfold instantLimit
    omega
  refine cachedAll_eq_all (.write (.read (.start "old" 10000 0) cachedPosts (Nat.zero_le 1) le_rfl (fill (by decide) _)) _
    (Nat.le_succ 1) fun hi => ?_) cachedPosts (Nat.le_succ 2) le_rfl (fill (by decide) _)
  exact absurd hi (by decide)

/-- After the query set was updated, with success, the cached read still returns the old title. -/
theorem cachedAll_afterUpdate_stale :
    (@WriteOp.run .decimal _ _ titleMeta titleEngine afterRead.db (.update {} [("title", .literal (.text "new"))])).result
      = .ok () ∧
    (@cachedAll .decimal _ _ _ titleEngine someOrder afterUpdate cachedPosts 3 3).2 = .ok ["old"] ∧
    @Engine.all .decimal _ _ _ titleEngine afterUpdate.db cachedPosts = .ok ["new"] := by
  refine ⟨by rfl, by rfl, by rfl⟩

end Djangors.Orm
