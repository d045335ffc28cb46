import Djangors.Orm.QueryCache
import Djangors.Theorems.CacheKey
import Djangors.Theorems.CacheRuns

/-! # What keeps cached queries apart

A call that is answered from the store has the text and the parameters of the call that stored the answer. Nothing in
a key names the database: that both calls are on one database is up to the application. -/

namespace Djangors.Orm
open Db

/-! ### Keys of several tables -/

section Keys
variable [Fmt] {table table' sql sql' : String} {params params' : List Value}

/-- A key is of one table only. -/
theorem findKey_table_inj (h : '\x00' ∉ table.toList) (h' : '\x00' ∉ table'.toList)
    (hkey : findKey table sql params = findKey table' sql' params') : table = table' :=
  String.toList_inj.mp (TextCode.append_cons_inj h h' (String.ofList_injective hkey)).1

theorem ofTable_findKey_iff (h : '\x00' ∉ table.toList) (h' : '\x00' ∉ table'.toList) :
    CacheStore.ofTable table (findKey table' sql params) = true ↔ table' = table := by
  constructor
  · intro hof
    rw [CacheStore.ofTable, findKey, String.toList_ofList, List.isPrefixOf_iff_prefix] at hof
    rcases hof with ⟨rest, hrest⟩
    rw [List.append_assoc, List.singleton_append] at hrest
    exact String.toList_inj.mp (TextCode.append_cons_inj h h' hrest).1.symm
  · rintro rfl
    exact ofTable_findKey _ _ _

end Keys

section Isolation
variable [Fmt] {δ τ ρ : Type} {dialect : δ → Dialect} {order : HashOrder (Boxed δ τ ρ)}

/-! ### Entries and their calls -/

/-- Every entry was put by a call, under its key. -/
def Filed (dialect : δ → Dialect) (uses : List (StoreUse δ τ ρ)) (store : CacheStore (Boxed δ τ ρ)) : Prop :=
  ∀ key entry, store.entries.lookup key = some entry →
    ∃ call rows now, .put call rows now ∈ uses ∧ key = call.key dialect ∧ entry.value = [⟨call, rows⟩]

section Filed
variable {uses : List (StoreUse δ τ ρ)} {store store' : CacheStore (Boxed δ τ ρ)}

/-- Removing entries keeps them filed. -/
theorem Filed.mono (filed : Filed dialect uses store) {use : StoreUse δ τ ρ}
    (sub : ∀ key entry, store'.entries.lookup key = some entry → store.entries.lookup key = some entry) :
    Filed dialect (uses ++ [use]) store' := by
  intro key entry hentry
  rcases filed key entry (sub key entry hentry) with ⟨call, rows, now, hput, hkey, hvalue⟩
  exact ⟨call, rows, now, List.mem_append_left _ hput, hkey, hvalue⟩

theorem Filed.put (filed : Filed dialect uses store) (call : CachedCall δ τ) (rows : List ρ) (now : Nat) :
    Filed dialect (uses ++ [.put call rows now]) (call.put dialect order store rows now) := by
  unfold CachedCall.put
  split
  · exact filed.mono fun _ _ h => h
  · split
    · intro key entry hentry
      have hentry := lookup_putCached hentry
      by_cases hkey : key = call.key dialect
      · rw [hkey, Function.update_self] at hentry
        obtain rfl := Option.some_inj.mp hentry
        exact ⟨call, rows, now, List.mem_append_right _ (List.mem_singleton_self _), hkey, rfl⟩
      · rw [Function.update_of_ne hkey] at hentry
        exact filed.mono (fun _ _ h => h) key entry hentry
    · exact filed.mono fun _ _ h => h

theorem Filed.apply (filed : Filed dialect uses store) (use : StoreUse δ τ ρ) :
    Filed dialect (uses ++ [use]) (use.apply dialect order store) := by
  cases use with
  | lookup call now => exact filed.mono fun _ _ h => h
  | put call rows now => exact filed.put call rows now
  | invalidate table =>
    refine filed.mono fun key entry h => ?_
    rw [StoreUse.apply, CacheStore.invalidateTable, Finmap.lookup_filter] at h
    exact (Option.filter_eq_some_iff.mp h).1
  | resize n => exact filed.mono fun key entry h => lookup_setMaxCacheEntries h

theorem filed_storeAfter (maxEntries : Nat) (uses : List (StoreUse δ τ ρ)) :
    Filed dialect uses (storeAfter dialect order maxEntries uses) := by
  induction uses using List.reverseRecOn with
  | nil =>
    intro key entry hentry
    rw [storeAfter, List.foldl_nil, Finmap.lookup_empty] at hentry
    cases hentry
  | append_singleton uses use ih =>
    rw [storeAfter, List.foldl_append, List.foldl_cons, List.foldl_nil]
    exact ih.apply use

end Filed

/-! ### Runs -/

/-- The calls that use the store. -/
def callsOf (uses : List (StoreUse δ τ ρ)) : List (CachedCall δ τ) := uses.filterMap fun
  | .lookup call _ | .put call _ _ => some call
  | .invalidate _ | .resize _ => none

/-- The tables that the uses name. -/
def tablesOf (uses : List (StoreUse δ τ ρ)) : List String :=
  (callsOf uses).map CachedCall.table ++ uses.filterMap fun
    | .invalidate table => some table
    | .lookup _ _ | .put _ _ _ | .resize _ => none

/-- Calls with one table, one text and the same parameters are on one database, and no name of a table has a NUL. -/
structure CallsApart (dialect : δ → Dialect) (uses : List (StoreUse δ τ ρ)) : Prop where
  tables : ∀ table ∈ tablesOf uses, '\x00' ∉ table.toList
  databases : ∀ call ∈ callsOf uses, ∀ call' ∈ callsOf uses, call.table = call'.table →
    call.sql dialect = call'.sql dialect → call.params dialect = call'.params dialect → call.database = call'.database

/-- Every answer of the store is to the question that is asked, on the database on which it is asked, and
    `invalidate_table` removes the entries of its table and no others. -/
structure Isolated [DecidableEq τ] (dialect : δ → Dialect) (order : HashOrder (Boxed δ τ ρ)) (maxEntries : Nat)
    (uses : List (StoreUse δ τ ρ)) : Prop where
  answers : ∀ before call now after box, uses = before ++ .lookup call now :: after →
    call.lookup dialect (storeAfter dialect order maxEntries before) now = some box →
      (∃ now', .put box.call box.rows now' ∈ before) ∧ box.call.database = call.database ∧
        box.call.sql dialect = call.sql dialect ∧ box.call.params dialect = call.params dialect
  removes : ∀ before table after key entry, uses = before ++ .invalidate table :: after →
    ((storeAfter dialect order maxEntries (before ++ [.invalidate table])).entries.lookup key = some entry ↔
      (storeAfter dialect order maxEntries before).entries.lookup key = some entry ∧
        ∀ box ∈ entry.value, box.call.table ≠ table)

section Calls
variable {uses : List (StoreUse δ τ ρ)} {call : CachedCall δ τ}

omit [Fmt] in
theorem mem_callsOf_put (rows : List ρ) (now : Nat) (h : .put call rows now ∈ uses) : call ∈ callsOf uses :=
  List.mem_filterMap.mpr ⟨_, h, rfl⟩

omit [Fmt] in
theorem mem_callsOf_lookup (now : Nat) (h : .lookup call now ∈ uses) : call ∈ callsOf uses :=
  List.mem_filterMap.mpr ⟨_, h, rfl⟩

theorem CallsApart.table_of_call (apart : CallsApart dialect uses) (h : call ∈ callsOf uses) : '\x00' ∉ call.table.toList :=
  apart.tables _ (List.mem_append_left _ (List.mem_map_of_mem h))

theorem CallsApart.table_of_invalidate (apart : CallsApart dialect uses) (table : String) (h : .invalidate table ∈ uses) :
    '\x00' ∉ table.toList :=
  apart.tables _ (List.mem_append_right _ (List.mem_filterMap.mpr ⟨_, h, rfl⟩))

/-- What a lookup is answered with lies under its key. -/
theorem lookup_eq_some [DecidableEq τ] {store : CacheStore (Boxed δ τ ρ)} {now : Nat} {box : Boxed δ τ ρ}
    (h : call.lookup dialect store now = some box) :
    ∃ entry, store.entries.lookup (call.key dialect) = some entry ∧ box ∈ entry.value := by
  rcases Option.bind_eq_some_iff.mp h with ⟨value, hvalue, hbox⟩
  rcases lookup_of_getCached hvalue with ⟨entry, hentry, -, rfl⟩
  exact ⟨entry, hentry, List.mem_of_mem_head? (Option.filter_eq_some_iff.mp hbox).1⟩

end Calls

/-- In every run whose calls are apart, the store keeps them apart. -/
theorem isolated_of_apart [LawfulFmt] [DecidableEq τ] {uses : List (StoreUse δ τ ρ)} (apart : CallsApart dialect uses)
    (order : HashOrder (Boxed δ τ ρ)) (maxEntries : Nat) : Isolated dialect order maxEntries uses where
  answers := by
    intro before call now after box huses hlookup
    rcases lookup_eq_some hlookup with ⟨entry, hentry, hbox⟩
    rcases filed_storeAfter maxEntries before _ _ hentry with ⟨stored, rows, now', hput, hkey, hvalue⟩
    obtain rfl : box = ⟨stored, rows⟩ := by rwa [hvalue, List.mem_singleton] at hbox
    have asked : call ∈ callsOf uses := mem_callsOf_lookup now (by simp [huses])
    have answered : stored ∈ callsOf uses := mem_callsOf_put rows now' (by simp [huses, hput])
    have table := findKey_table_inj (apart.table_of_call answered) (apart.table_of_call asked) hkey.symm
    have query : stored.sql dialect = call.sql dialect ∧ stored.params dialect = call.params dialect := by
      refine @findKey_inj _ _ call.table _ _ _ _ (Eq.trans ?_ hkey.symm)
      rw [CachedCall.key, table]
    exact ⟨⟨now', hput⟩, apart.databases _ answered _ asked table query.1 query.2, query⟩
  removes := by
    intro before table after key entry huses
    have named := apart.table_of_invalidate table (by simp [huses])
    rw [storeAfter, List.foldl_append, List.foldl_cons, List.foldl_nil, ← storeAfter, StoreUse.apply,
      CacheStore.invalidateTable, Finmap.lookup_filter, Option.filter_eq_some_iff]
    refine and_congr_right fun hentry => ?_
    rcases filed_storeAfter maxEntries before _ _ hentry with ⟨stored, rows, now', hput, rfl, hvalue⟩
    have answered : stored ∈ callsOf uses := mem_callsOf_put rows now' (by simp [huses, hput])
    rw [hvalue, List.forall_mem_singleton, Bool.not_eq_true', ← Bool.not_eq_true, CachedCall.key,
      ofTable_findKey_iff named (apart.table_of_call answered)]

/-- The condition on databases is exact: of two calls with one key and type, the second is answered from the first. -/
theorem crossed [DecidableEq τ] (dialect : δ → Dialect) (order : HashOrder (Boxed δ τ ρ)) {call call' : CachedCall δ τ}
    {ttl : Nat} (httl : call.query.cacheTtl = some ttl)
    (hpos : 0 < ttl) (hlimit : ttl < instantLimit) (htype : call.type = call'.type)
    (hkey : call.key dialect = call'.key dialect) (rows : List ρ) (maxEntries : Nat) :
    call'.lookup dialect (storeAfter dialect order maxEntries [.put call rows 0]) 0 = some ⟨call, rows⟩ := by
  have put : storeAfter dialect order maxEntries [.put call rows 0] =
      CacheStore.putCached order ⟨∅, maxEntries⟩ (call.key dialect) ⟨[⟨call, rows⟩], some (0 + ttl)⟩ := by
    rw [storeAfter, List.foldl_cons, List.foldl_nil, StoreUse.apply, CachedCall.put, httl]
    exact if_pos (by omega)
  have found : (storeAfter dialect order maxEntries [.put call rows 0]).entries.lookup (call'.key dialect) =
      some ⟨[⟨call, rows⟩], some (0 + ttl)⟩ := by
    rw [put, ← hkey]
    exact Finmap.lookup_insert _
  rw [CachedCall.lookup, getCached_of_lookup found (decide_eq_true (by omega))]
  simp [htype]

end Isolation

/-! ### Two tenants -/

/-- The posts of a tenant, as `cachedPosts` asks for them. -/
def tenantPosts (tenant : Bool) : CachedCall Bool Unit := ⟨tenant, (), titleMeta, cachedPosts⟩

def allPostgres : Bool → Dialect := fun _ => .postgres

def someBoxes : HashOrder (Boxed Bool Unit String) := ⟨fun _ => none, fun _ _ h => nomatch h⟩

/-- The posts of one tenant are served to another. -/
theorem tenant_served_other :
    ¬∀ uses : List (StoreUse Bool Unit String), @Isolated .decimal _ _ _ _ allPostgres someBoxes 10000 uses := by
  let fmt : Fmt := .decimal
  intro isolated
  have answered := @crossed _ _ _ _ _ allPostgres someBoxes (tenantPosts true) (tenantPosts false) (60 * 10 ^ 9) rfl
    (by decide) (by decide) rfl rfl ["secret"] 10000
  have database := ((isolated [.put (tenantPosts true) ["secret"] 0, .lookup (tenantPosts false) 0]).answers
    [.put (tenantPosts true) ["secret"] 0] _ _ [] _ rfl answered).2.1
  cases database

/-- One tenant keeps its posts, and invalidates them. -/
theorem tenantPosts_isolated : @Isolated .decimal _ _ _ _ allPostgres someBoxes 10000
    [.put (tenantPosts true) ["hello"] 0, .lookup (tenantPosts true) 1, .invalidate "blog_post"] := by
  let fmt : Fmt := .decimal
  have lawful : LawfulFmt := Fmt.decimal_lawful
  refine isolated_of_apart ⟨?_, ?_⟩ someBoxes 10000
  · intro table htable
    obtain rfl : table = "blog_post" := by simpa [tablesOf, callsOf, tenantPosts, CachedCall.table, titleMeta] using htable
    decide
  · intro call hcall call' hcall' _ _ _
    obtain rfl : call = tenantPosts true := by simpa [callsOf] using hcall
    obtain rfl : call' = tenantPosts true := by simpa [callsOf] using hcall'
    rfl

end Djangors.Orm
