import Djangors.Theorems.AdminHandlers

/-! # Writes stay in the tenant

A statement stays in the tenant when the rows that are not of the tenant are the same before and after it. An `UPDATE`
does when it stores the tenant in the tenant field, or nothing; a `DELETE` does behind a check of the row; and an `INSERT`
names the column of the tenant field twice, unless this is the primary key. -/

namespace Djangors.Admin
open Db Http Orm Sql
open Migrations (CaseMap)

/-- The rows of no other tenant change: those that do not have the tenant in the tenant field are the same. -/
def TenantKept (site : Site) (S : AdminServer) (field : String) (tenant : Int) (before after : Tables Cell) : Prop :=
  ∀ m ∈ site.models, field ∈ memberNames m →
    (after m.tableName).filter (fun r => !S.has (fieldToCol m field).name tenant r) =
      (before m.tableName).filter (fun r => !S.has (fieldToCol m field).name tenant r)

section Kept
variable {site : Site} {S : AdminServer} {field : String} {tenant : Int} {db : Tables Cell} {admin : ModelAdmin}

theorem TenantKept.of_eq {after : Tables Cell} (h : after = db) : TenantKept site S field tenant db after :=
  fun _ _ _ => by rw [h]

theorem tenantKept_update (hadmin : admin.info ∈ site.models) {rows : List (Row Cell)}
    (h : rows.filter (fun r => !S.has (admin.column field) tenant r) =
      (db admin.info.tableName).filter fun r => !S.has (admin.column field) tenant r) :
    TenantKept site S field tenant db (Function.update db admin.info.tableName rows) := by
  intro m hm hfield
  by_cases htable : m.tableName = admin.info.tableName
  · obtain rfl := List.inj_on_of_nodup_map site.tables_nodup hm hadmin htable
    rw [Function.update_self]
    exact h
  · rw [Function.update_of_ne htable]

theorem mem_names_of_tenant (hfield : field ∈ memberNames admin.info) :
    ∀ p ∈ (some (field, tenant) : TenantFilter).toList, p.1 ∈ memberNames admin.info := by
  simpa using hfield

variable [Fmt] [UnquotedNames] {w : World} {pk : Int} {values : List (String × Value)}

/-- An `UPDATE` of the tenant's rows keeps the tenant in them, if it stores nothing else in the tenant field. -/
theorem tenantKept_runUpdate (hadmin : admin.info ∈ site.models) (hfield : field ∈ memberNames admin.info)
    (hnames : (values.map (·.1)).Nodup) (hmembers : ∀ p ∈ values, p.1 ∈ memberNames admin.info)
    (hstored : ∀ v, values.lookup field = some v → v = .i64 tenant ∨ field = admin.pk.name ∧ pk ≠ tenant) :
    TenantKept site S field tenant w.tables
      ((AdminCall.update _ (scopedTo admin pk (some (field, tenant))) (literals values)).exec S w).1.tables := by
  rw [AdminCall.exec]
  cases hrun : AdminCall.runUpdate S w.tables admin.info (scopedTo admin pk (some (field, tenant))) (literals values) with
  | error e => exact .of_eq rfl
  | ok result =>
    obtain ⟨after, effects, n⟩ := result
    obtain ⟨rfl, -⟩ := runUpdate_eq_ok hrun
    refine tenantKept_update hadmin ?_
    have hkeeps (r : Row Cell) : (scopedTo admin pk (some (field, tenant))).keeps S.toServer w.tables r = _ :=
      keeps_scopedTo S w.tables (mem_names_of_tenant hfield) r
    -- A row that is assigned has the tenant before and after.
    have hassigned : ∀ r, (scopedTo admin pk (some (field, tenant))).keeps S.toServer w.tables r = true →
        S.has (admin.column field) tenant r = true ∧
          S.has (admin.column field) tenant (r.setAll (storedCells admin.info values)) = true := by
      intro r hr
      rw [hkeeps] at hr
      simp only [Option.toList_some, List.all_cons, List.all_nil, Bool.and_true, Bool.and_eq_true] at hr
      obtain ⟨-, hpk, htenant⟩ := hr
      refine ⟨htenant, ?_⟩
      have hlookup : (r.setAll (storedCells admin.info values)).lookup (admin.column field) =
          (r.lookup (admin.column field)).map fun old =>
            ((values.lookup field).map (storedCell admin.info field)).getD old := by
        rw [Row.lookup_setAll (storedCells_nodup hnames hmembers), lookup_storedCells hmembers hfield]
      obtain ⟨cell, hcell⟩ := exists_of_has htenant
      rw [hcell, Option.map_some] at hlookup
      cases hvalue : values.lookup field with
      | none =>
        rw [hvalue] at hlookup
        rw [AdminServer.has, compares, hcell] at htenant
        rw [AdminServer.has, compares, hlookup]
        exact htenant
      | some v =>
        rw [hvalue] at hlookup
        rcases hstored v hvalue with rfl | ⟨rfl, hne⟩
        · exact (has_of_lookup hlookup).mpr rfl
        · rw [ModelAdmin.column_pk] at htenant
          exact absurd (has_unique hpk htenant) hne
    refine List.filter_map_eq fun r _ => ?_
    rw [assigned]
    split
    · rename_i hr
      obtain ⟨hbefore, hafter⟩ := hassigned r hr
      exact .inr ⟨by rw [hbefore]; rfl, by rw [hafter]; rfl⟩
    · exact .inl rfl

/-- A `DELETE` by the key of a row of the tenant deletes that row. -/
theorem tenantKept_deleteByPk (hadmin : admin.info ∈ site.models) (hfield : field ∈ memberNames admin.info)
    (hkeys : KeysDistinct S admin w.tables) (hrow : ∃ r ∈ w.tables admin.info.tableName,
      (scopedTo admin pk (some (field, tenant))).keeps S.toServer w.tables r = true) :
    TenantKept site S field tenant w.tables ((AdminCall.deleteByPk admin.info pk).exec S w).1.tables := by
  rw [AdminCall.exec]
  cases hrun : (QuerySet.deleteByPk admin.info pk).bind (AdminCall.runDelete S w.tables admin.info) with
  | error e => exact .of_eq rfl
  | ok result =>
    obtain ⟨after, effects, n⟩ := result
    obtain ⟨rfl, -, -⟩ := runDeleteByPk_eq_ok hrun
    refine tenantKept_update hadmin ?_
    obtain ⟨r₀, hmem, hkeeps⟩ := hrow
    rw [keeps_scopedTo S w.tables (mem_names_of_tenant hfield)] at hkeeps
    simp only [Option.toList_some, List.all_cons, List.all_nil, Bool.and_true, Bool.and_eq_true] at hkeeps
    obtain ⟨-, hpk, htenant⟩ := hkeeps
    rw [List.filter_filter]
    refine List.filter_congr fun r hr => ?_
    by_cases hdoomed : S.has admin.pk.columnName pk r = true
    · obtain rfl := hkeys.eq hr hmem hdoomed hpk
      rw [htenant]
      rfl
    · rw [Bool.not_eq_true] at hdoomed
      rw [hdoomed]
      simp

/-- The row whose key is the tenant has the tenant in its key. -/
theorem tenantKept_deleteOwn (hadmin : admin.info ∈ site.models) (hfield : field = admin.pk.name) :
    TenantKept site S field tenant w.tables ((AdminCall.deleteByPk admin.info tenant).exec S w).1.tables := by
  rw [AdminCall.exec]
  cases hrun : (QuerySet.deleteByPk admin.info tenant).bind (AdminCall.runDelete S w.tables admin.info) with
  | error e => exact .of_eq rfl
  | ok result =>
    obtain ⟨after, effects, n⟩ := result
    obtain ⟨rfl, -, -⟩ := runDeleteByPk_eq_ok hrun
    refine tenantKept_update hadmin ?_
    rw [hfield, ModelAdmin.column_pk, List.filter_filter]
    simp

omit [Fmt] [UnquotedNames] in
/-- A value that is named once is the one of the row. -/
theorem lookup_givenRow {v : Value} (hmembers : ∀ p ∈ values, p.1 ∈ memberNames admin.info)
    (hfield : field ∈ memberNames admin.info) (hnew : field ∉ values.map (·.1))
    (hauto : (admin.info.field? field).any (·.auto) = false) :
    (givenRow admin.info (values ++ [(field, v)])).lookup (admin.column field) = some (storedCell admin.info field v) := by
  have hinsertable : insertable admin.info (values ++ [(field, v)]) = insertable admin.info values ++ [(field, v)] := by
    rw [insertable, List.filter_append, List.filter_singleton]
    simp [hauto, insertable]
  have hnone : (insertable admin.info values).lookup field = none := by
    rw [List.lookup_eq_none_iff]
    intro p hp
    exact bne_iff_ne.mpr fun heq => hnew (List.mem_map.mpr ⟨p, List.mem_of_mem_filter hp, heq.symm⟩)
  have hlast : [(field, v)].lookup field = some v := by simp
  rw [givenRow, hinsertable, lookup_storedCells _ hfield, List.lookup_append, hnone, Option.none_or, hlast, Option.map_some]
  intro p hp
  rcases List.mem_append.mp hp with hp | hp
  · exact hmembers p (List.mem_of_mem_filter hp)
  · rw [List.mem_singleton.mp hp]
    exact hfield

/-- An `INSERT` that names the tenant field once stores a row of the tenant. -/
theorem tenantKept_insertRaw (hadmin : admin.info ∈ site.models) (hfield : field ∈ memberNames admin.info)
    (hmembers : ∀ p ∈ values, p.1 ∈ memberNames admin.info) (hnew : field ∉ values.map (·.1))
    (hauto : (admin.info.field? field).any (·.auto) = false) :
    TenantKept site S field tenant w.tables
      ((AdminCall.insertRaw admin.info (values ++ [(field, .i64 tenant)])).exec S w).1.tables := by
  rw [AdminCall.exec]
  cases hrun : (QuerySet.insertRaw admin.info (values ++ [(field, .i64 tenant)])).bind
      (AdminCall.runInsert S w.tables admin.info) with
  | error e => exact .of_eq rfl
  | ok result =>
    obtain ⟨after, effects, pk⟩ := result
    have hall : ∀ p ∈ values ++ [(field, Value.i64 tenant)], p.1 ∈ memberNames admin.info := by
      intro p hp
      rcases List.mem_append.mp hp with hp | hp
      · exact hmembers p hp
      · rw [List.mem_singleton.mp hp]
        exact hfield
    obtain ⟨rfl, -⟩ := runInsert_eq_ok hall hrun
    refine tenantKept_update hadmin ?_
    have hrow := S.complete_given w.tables admin.info.tableName _ _ _
      (lookup_givenRow (v := .i64 tenant) hmembers hfield hnew hauto)
    have htenant := (has_of_lookup (S := S) (n := tenant) hrow).mpr rfl
    rw [List.filter_append, List.filter_singleton, htenant]
    simp

end Kept

end Djangors.Admin
