import Djangors.Admin.Views
import Djangors.Lib.Lists
import Djangors.Theorems.Assignments

/-! # What the statements of the admin do -/

namespace Djangors.Admin
open Db Http Orm Sql

/-- The row has an integer in a column. -/
def AdminServer.has (S : AdminServer) (column : String) (n : Int) (r : Row Cell) : Bool :=
  compares S.toServer .eq column (.i64 n) r

/-- The primary keys of a table are distinct. -/
def KeysDistinct (S : AdminServer) (admin : ModelAdmin) (db : Tables Cell) : Prop :=
  (db admin.info.tableName).Pairwise fun r r' => ∀ n, ¬(S.has admin.pk.columnName n r = true ∧ S.has admin.pk.columnName n r' = true)

section Has
variable {S : AdminServer} {db : Tables Cell} {column : String} {n : Int} {r : Row Cell}

theorem holds_eq_has (t : String) : S.holds db t column n r = S.has column n r := by
  rw [Bool.eq_iff_iff, AdminServer.holds, Pred.holds, beq_iff_eq, eval_compare]
  rfl

theorem has_of_lookup {k : Int} (h : r.lookup column = some (.i64 k)) : S.has column n r = true ↔ k = n := by
  rw [AdminServer.has, compares, h, Option.bind_some, S.equal_i64, beq_iff_eq, Option.some.injEq, beq_iff_eq]

theorem has_unique {k : Int} (hn : S.has column n r = true) (hk : S.has column k r = true) : n = k := by
  rw [AdminServer.has, compares, beq_iff_eq, Option.bind_eq_some_iff] at hn hk
  obtain ⟨v, hv, hn⟩ := hn
  obtain ⟨v', hv', hk⟩ := hk
  obtain rfl := Option.some.inj (hv.symm.trans hv')
  exact S.equal_unique v n k hn hk

theorem exists_of_has (h : S.has column n r = true) : ∃ cell, r.lookup column = some cell := by
  rw [AdminServer.has, compares, beq_iff_eq, Option.bind_eq_some_iff] at h
  exact ⟨_, h.choose_spec.1⟩

theorem KeysDistinct.eq {admin : ModelAdmin} (h : KeysDistinct S admin db) {r r' : Row Cell} (hr : r ∈ db admin.info.tableName)
    (hr' : r' ∈ db admin.info.tableName) (hn : S.has admin.pk.columnName n r = true)
    (hn' : S.has admin.pk.columnName n r' = true) : r = r' := by
  by_contra hne
  have hsymm : Std.Symm fun r r' : Row Cell =>
      ∀ n, ¬(S.has admin.pk.columnName n r = true ∧ S.has admin.pk.columnName n r' = true) :=
    ⟨fun _ _ h n hn => h n hn.symm⟩
  exact h.forall hr hr' hne n ⟨hn, hn'⟩

end Has

/-! ### Names and columns -/

namespace ModelAdmin
variable (admin : ModelAdmin)

/-- The column of a field or a relation. -/
def column (name : String) : String := (fieldToCol admin.info name).name

theorem primaryKey_eq : admin.info.primaryKey? = some admin.pk := by
  rw [ModelMeta.primaryKey?, ← List.head?_filter, admin.primary]
  rfl

theorem pk_mem : admin.pk ∈ admin.info.fields ∧ admin.pk.primaryKey = true := by
  have hmem : admin.pk ∈ admin.info.fields.filter (·.primaryKey) := by
    rw [admin.primary]
    exact List.mem_singleton_self _
  exact List.mem_filter.mp hmem

variable {admin} {name : String}

theorem field?_eq {f : FieldMeta} (hf : f ∈ admin.info.fields) : admin.info.field? f.name = some f :=
  (List.find?_key_eq_some (List.nodup_append.mp admin.names_nodup).1).mpr ⟨hf, rfl⟩

theorem relation?_eq {r : RelationMeta} (hr : r ∈ admin.info.relations) :
    admin.info.field? r.fieldName = none ∧ admin.info.relation? r.fieldName = some r := by
  obtain ⟨-, hrelations, hdisjoint⟩ := List.nodup_append.mp admin.names_nodup
  refine ⟨List.find?_key_eq_none.mpr fun hmem => ?_, (List.find?_key_eq_some hrelations).mpr ⟨hr, rfl⟩⟩
  exact hdisjoint _ hmem _ (List.mem_map_of_mem hr) rfl

theorem fieldToCol_eq (hname : name ∈ memberNames admin.info) : fieldToCol admin.info name = .column (admin.column name) := by
  rcases List.mem_append.mp hname with hname | hname
  · obtain ⟨f, hf, rfl⟩ := List.mem_map.mp hname
    rw [column, fieldToCol, field?_eq hf]
    rfl
  · obtain ⟨r, hr, rfl⟩ := List.mem_map.mp hname
    rw [column, fieldToCol, (relation?_eq hr).1, (relation?_eq hr).2]
    rfl

theorem column_field {f : FieldMeta} (hf : f ∈ admin.info.fields) : admin.column f.name = f.columnName := by
  rw [column, fieldToCol, field?_eq hf]
  rfl

theorem column_relation {r : RelationMeta} (hr : r ∈ admin.info.relations) : admin.column r.fieldName = r.fieldName := by
  rw [column, fieldToCol, (relation?_eq hr).1, (relation?_eq hr).2]
  rfl

/-- Different names have different columns. -/
theorem columns_memberNames : ((memberNames admin.info).map admin.column).Nodup := by
  have hfields : (admin.info.fields.map (·.name)).map admin.column = admin.info.fields.map (·.columnName) := by
    rw [List.map_map]
    exact List.map_congr_left fun f hf => column_field hf
  have hrelations : (admin.info.relations.map (·.fieldName)).map admin.column = admin.info.relations.map (·.fieldName) := by
    rw [List.map_map]
    exact List.map_congr_left fun r hr => column_relation hr
  rw [memberNames, List.map_append, hfields, hrelations]
  exact admin.columns_nodup

theorem column_inj {name' : String} (hname : name ∈ memberNames admin.info) (hname' : name' ∈ memberNames admin.info)
    (h : admin.column name = admin.column name') : name = name' :=
  List.inj_on_of_nodup_map columns_memberNames hname hname' h

theorem checkFieldMeta_eq (hname : name ∈ memberNames admin.info) : checkFieldMeta admin.info name = .ok name := by
  refine if_pos ?_
  rw [Bool.or_eq_true, List.any_eq_true, List.any_eq_true]
  rcases List.mem_append.mp hname with hname | hname
  · obtain ⟨f, hf, rfl⟩ := List.mem_map.mp hname
    exact .inl ⟨f, hf, beq_self_eq_true _⟩
  · obtain ⟨r, hr, rfl⟩ := List.mem_map.mp hname
    exact .inr ⟨r, hr, beq_self_eq_true _⟩

theorem mem_memberNames_of_field {f : FieldMeta} (hf : f ∈ admin.info.fields) : f.name ∈ memberNames admin.info :=
  List.mem_append_left _ (List.mem_map_of_mem hf)

theorem pk_name_mem : admin.pk.name ∈ memberNames admin.info := mem_memberNames_of_field admin.pk_mem.1

theorem column_pk : admin.column admin.pk.name = admin.pk.columnName := column_field admin.pk_mem.1

end ModelAdmin

/-! ### Rows that are read -/

section Read
variable {S : Server} {db : Tables Cell} {r : Row Cell}

theorem fetch_mem {s : Select} {rows : List (Row Cell)} (h : S.fetch db s = .ok rows) (hr : r ∈ rows) :
    r ∈ db s.table ∧ S.selects db s.table s.bound r = true := by
  have hsub : ∀ {limit : Option Int} {all rows : List (Row Cell)}, S.limited limit all = .ok rows → r ∈ rows → r ∈ all := by
    intro limit all rows h hr
    simp only [Server.limited] at h
    split at h
    · exact Except.ok.inj h ▸ hr
    · split at h
      · exact List.mem_of_mem_take (Except.ok.inj h ▸ hr)
      · split at h
        · cases h
        · exact Except.ok.inj h ▸ hr
  rw [Server.fetch] at h
  split at h
  · cases h
  · have hmem := List.mem_of_mem_drop (hsub h hr)
    exact List.mem_filter.mp ((S.arrange_perm _ _).mem_iff.mp hmem)

variable [Fmt] {m : ModelMeta} {qs : QuerySet m}

/-- The rows that `all` selects are kept by the filters. -/
theorem keeps_of_selects (h : S.selects db m.tableName (qs.select S.dialect).bound r = true) : qs.keeps S db r = true := by
  rw [qs.select_bound] at h
  cases hsearch : qs.searchCondition with
  | none =>
    rw [hsearch] at h
    exact (selects_ofFilters S db _ _ r).symm.trans h
  | some sc =>
    rw [hsearch, Where.withSearch] at h
    split at h
    · cases h
    · rw [QuerySet.keeps, List.all_eq_true]
      rw [Server.selects, Pred.map, Pred.mapAll_eq_map, Pred.holds, beq_iff_eq, Pred.eval, Pred.evalConj_eq_true,
        List.forall_mem_map] at h
      exact fun p hp => beq_iff_eq.mpr (h p (List.mem_append_left _ hp))

end Read

/-! ### Rows that are written -/

theorem stopErr_eq_ok {α : Type} {result : Except OrmError α} {a : α} : stopErr result = .ok a ↔ result = .ok a := by
  cases result <;> simp [stopErr, Except.mapError]

section Write
variable [Fmt] {S : AdminServer} {db after : Tables Cell} {m : ModelMeta} {n : Nat} {effects : List Effect}

/-- The row after an `UPDATE` of literal values. -/
def assigned (S : AdminServer) (db : Tables Cell) (qs : QuerySet m) (values : List (String × Value)) (r : Row Cell) :
    Row Cell :=
  if qs.keeps S.toServer db r then r.setAll (storedCells m values) else r

theorem runUpdate_eq_ok {qs : QuerySet m} {values : List (String × Value)}
    (h : AdminCall.runUpdate S db m qs (literals values) = .ok (after, effects, n)) :
    after = Function.update db m.tableName ((db m.tableName).map (assigned S db qs values)) ∧
      effects = changes m (db m.tableName) ((db m.tableName).map (assigned S db qs values)) := by
  obtain ⟨u, hu, h⟩ := Except.bind_eq_ok.mp (stopErr_eq_ok.mp h)
  obtain ⟨⟨after', n'⟩, hrun, h⟩ := Except.bind_eq_ok.mp h
  cases h
  obtain ⟨htable, hbound⟩ := qs.update_bound S.dialect hu
  obtain ⟨-, f, hkept, hset, rfl⟩ := Server.runUpdate_ok hrun
  rw [htable, hbound] at hkept hset
  rw [htable]
  have hmap : (db m.tableName).map f = (db m.tableName).map (assigned S db qs values) := by
    refine List.map_congr_left fun r hr => ?_
    have hselects : S.selects db m.tableName (Where.ofFilters (qs.boundFilters S.dialect)) r = qs.keeps S.toServer db r :=
      selects_ofFilters S.toServer db _ _ r
    cases hkeeps : qs.keeps S.toServer db r with
    | false =>
      rw [assigned, hkeeps, if_neg (by simp)]
      exact hkept r hr (hselects.trans hkeeps)
    | true =>
      rw [assigned, hkeeps, if_pos rfl]
      exact Option.some.inj ((hset r hr (hselects.trans hkeeps)).symm.trans (assignRow_literals hu S.toServer r))
  rw [hmap, Function.update_self]
  exact ⟨rfl, rfl⟩

omit [Fmt] in
theorem taken_of_commit {t : String} {rows : List (Row Cell)} (h : S.commit db t rows = .ok after) :
    S.refuses db after = none := by
  simp only [Server.commit] at h
  split at h
  · cases h
  · rename_i htaken
    rw [← Except.ok.inj h]
    exact htaken

/-- The server has taken what an `UPDATE` leaves. -/
theorem taken_of_runUpdate {qs : QuerySet m} {sets : List (String × SetExpr)}
    (h : AdminCall.runUpdate S db m qs sets = .ok (after, effects, n)) : S.refuses db after = none := by
  obtain ⟨u, -, h⟩ := Except.bind_eq_ok.mp (stopErr_eq_ok.mp h)
  obtain ⟨⟨after', n'⟩, hrun, h⟩ := Except.bind_eq_ok.mp h
  cases h
  simp only [Server.runUpdate] at hrun
  split at hrun
  · cases hrun
  split at hrun
  · cases hrun
  split at hrun
  · cases hrun
  obtain ⟨_, hcommit, hrun⟩ := Except.bind_eq_ok.mp hrun
  cases hrun
  exact taken_of_commit hcommit

theorem checkSets_literals {admin : ModelAdmin} {values : List (String × Value)}
    (hmembers : ∀ p ∈ values, p.1 ∈ memberNames admin.info) :
    (literals values).forM (QuerySet.checkSet admin.info) = .ok () := by
  induction values with
  | nil => rfl
  | cons p values ih =>
    have hcheck : QuerySet.checkSet admin.info (p.1, .literal p.2) = .ok () := by
      rw [QuerySet.checkSet, ModelAdmin.checkFieldMeta_eq (hmembers p (by simp))]
      rfl
    have hrest := ih fun q hq => hmembers q (by simp [hq])
    show (QuerySet.checkSet admin.info (p.1, .literal p.2) >>= fun _ => (literals values).forM _) = _
    rw [hcheck]
    exact hrest

/-- A server that does not refuse the result stores the values. -/
theorem runUpdate_of_taken {admin : ModelAdmin} (qs : QuerySet admin.info) {values : List (String × Value)}
    (hmembers : ∀ p ∈ values, p.1 ∈ memberNames admin.info) (hvalues : values ≠ [])
    (htaken : S.refuses db (Function.update db admin.info.tableName
      ((db admin.info.tableName).map (assigned S db qs values))) = none) :
    ∃ n, AdminCall.runUpdate S db admin.info qs (literals values) =
      .ok (Function.update db admin.info.tableName ((db admin.info.tableName).map (assigned S db qs values)),
        changes admin.info (db admin.info.tableName) ((db admin.info.tableName).map (assigned S db qs values)), n) := by
  obtain ⟨u, hu⟩ : ∃ u, qs.update S.dialect (literals values) = .ok u := by
    rw [QuerySet.update, checkSets_literals hmembers]
    exact ⟨_, rfl⟩
  obtain ⟨htable, hbound⟩ := qs.update_bound S.dialect hu
  have hsets : u.sets.isEmpty = false := by
    rw [QuerySet.update, checkSets_literals hmembers] at hu
    cases hu
    cases values with
    | nil => exact absurd rfl hvalues
    | cons p values => rfl
  have hassign : ∀ r, S.assignRow u r = some (r.setAll (storedCells admin.info values)) := assignRow_literals hu S.toServer
  have hrows (clause : Where (Option BindValue)) (hclause : clause = Where.ofFilters (qs.boundFilters S.dialect)) :
      (db admin.info.tableName).mapM (fun r =>
        if S.selects db admin.info.tableName clause r then S.assignRow u r else some r) =
      some ((db admin.info.tableName).map (assigned S db qs values)) := by
    refine Eq.trans (congrArg (List.mapM · (db admin.info.tableName)) (funext fun r => ?_)) List.mapM_pure
    have hselects : S.selects db admin.info.tableName clause r = qs.keeps S.toServer db r :=
      hclause ▸ selects_ofFilters S.toServer db _ _ r
    rw [hassign, hselects, assigned]
    split <;> rfl
  have hrun : ∃ after n, S.toServer.runUpdate db u = .ok (after, n) := by
    rw [Server.runUpdate, hsets, hbound, if_neg (by simp)]
    cases hfilters : QuerySet.boundFilters qs S.dialect with
    | nil =>
      simp only [Where.ofFilters, Server.commit, htable, htaken, hrows .absent (by rw [hfilters]; rfl)]
      exact ⟨_, _, rfl⟩
    | cons c cs =>
      simp only [Where.ofFilters, Server.commit, htable, htaken, hrows (.cond (.conj (c :: cs))) (by rw [hfilters]; rfl)]
      exact ⟨_, _, rfl⟩
  obtain ⟨after, n, hrun⟩ := hrun
  have hresult : AdminCall.runUpdate S db admin.info qs (literals values) =
      .ok (after, changes admin.info (db admin.info.tableName) (after admin.info.tableName), n) := by
    rw [AdminCall.runUpdate, hu]
    show stopErr (S.toServer.runUpdate db u >>= _) = _
    rw [hrun]
    rfl
  obtain ⟨hafter, heffects⟩ := runUpdate_eq_ok hresult
  exact ⟨n, by rw [hresult, heffects, hafter]⟩

variable (S db) in
/-- A server that refuses nothing stores the values. -/
theorem runUpdate_of_accepts {admin : ModelAdmin} (qs : QuerySet admin.info) {values : List (String × Value)}
    (hmembers : ∀ p ∈ values, p.1 ∈ memberNames admin.info) (hvalues : values ≠ [])
    (haccepts : ∀ before after, S.refuses before after = none) :
    ∃ n, AdminCall.runUpdate S db admin.info qs (literals values) =
      .ok (Function.update db admin.info.tableName ((db admin.info.tableName).map (assigned S db qs values)),
        changes admin.info (db admin.info.tableName) ((db admin.info.tableName).map (assigned S db qs values)), n) :=
  runUpdate_of_taken qs hmembers hvalues (haccepts _ _)

end Write

section Delete
variable {S : AdminServer} {db after : Tables Cell} {admin : ModelAdmin} {pk : Int} {n : Nat} {effects : List Effect}

theorem runDeleteByPk_eq_ok
    (h : (QuerySet.deleteByPk admin.info pk).bind (AdminCall.runDelete S db admin.info) = .ok (after, effects, n)) :
    after = Function.update db admin.info.tableName
        ((db admin.info.tableName).filter fun r => !S.has admin.pk.columnName pk r) ∧
      effects = ((db admin.info.tableName).filter (S.has admin.pk.columnName pk)).map (.deleted admin.info) ∧
      n = ((db admin.info.tableName).filter (S.has admin.pk.columnName pk)).length := by
  obtain ⟨s, hs, h⟩ := Except.bind_eq_ok.mp h
  rw [QuerySet.deleteByPk, admin.primaryKey_eq] at hs
  cases hs
  obtain ⟨⟨after', n'⟩, hrun, h⟩ := Except.bind_eq_ok.mp (stopErr_eq_ok.mp h)
  cases h
  obtain ⟨rfl, rfl⟩ := Server.runDelete_ok hrun
  have hselects : ∀ r, S.selects db admin.info.tableName (.cond (.cmp (.column admin.pk.columnName) .eq
      (.param (some (.i64 pk))))) r = S.has admin.pk.columnName pk r := fun r => holds_eq_has admin.info.tableName
  refine ⟨congrArg _ (List.filter_congr fun r _ => congrArg _ (hselects r)), ?_, ?_⟩
  · exact congrArg _ (List.filter_congr fun r _ => hselects r)
  · exact congrArg _ (List.filter_congr fun r _ => hselects r)

variable (db admin) in
/-- A server that refuses nothing deletes the rows with a key. -/
theorem runDeleteByPk_of_accepts (k : Int) (haccepts : ∀ before after, S.refuses before after = none) :
    ∃ n, (QuerySet.deleteByPk admin.info k).bind (AdminCall.runDelete S db admin.info) =
      .ok (Function.update db admin.info.tableName ((db admin.info.tableName).filter fun r => !S.has admin.pk.columnName k r),
        ((db admin.info.tableName).filter (S.has admin.pk.columnName k)).map (.deleted admin.info), n) := by
  obtain ⟨⟨after, effects, n⟩, hrun⟩ : ∃ result, (QuerySet.deleteByPk admin.info k).bind
      (AdminCall.runDelete S db admin.info) = .ok result := by
    rw [QuerySet.deleteByPk, admin.primaryKey_eq]
    simp only [Except.bind, AdminCall.runDelete, Server.runDelete, Delete.bound, Where.map, Server.commit, haccepts]
    exact ⟨_, rfl⟩
  obtain ⟨rfl, rfl, -⟩ := runDeleteByPk_eq_ok hrun
  exact ⟨n, hrun⟩

end Delete

/-! ### The scope of a key -/

section Scope
variable {admin : ModelAdmin} {pk : Int} {tenant : TenantFilter}

/-- What the rows with a key in the tenant have in their fields. -/
def scopeOf (admin : ModelAdmin) (pk : Int) (tenant : TenantFilter) : List (String × Value) :=
  (admin.pk.name, .i64 pk) :: tenant.toList.map fun (field, id) => (field, .i64 id)

/-- The query set of a key in the tenant. -/
def scopedTo (admin : ModelAdmin) (pk : Int) (tenant : TenantFilter) : QuerySet admin.info :=
  { admin.objects with filters := admin.objects.filters ++ [equalTo (scopeOf admin pk tenant)] }

theorem resolveCompare_eq {name : String} (hname : name ∈ memberNames admin.info) (value : Value) :
    resolveCompare admin.info ⟨name, value⟩ = .ok (.compare name .eq value) := by
  rw [resolveCompare, admin.names_plain name hname]
  simp only [ModelAdmin.checkFieldMeta_eq hname]
  rfl

theorem resolveExpr_eq {pairs : List (String × Value)} (hnames : ∀ p ∈ pairs, p.1 ∈ memberNames admin.info) :
    resolveExpr admin.info (.and (pairs.map fun (name, value) => ⟨name, value⟩)) = .ok (equalTo pairs) := by
  have hmap : (pairs.map fun (name, value) => (⟨name, value⟩ : UnresolvedCompare)).mapM (resolveCompare admin.info) =
      .ok (pairs.map fun (name, value) => .compare name .eq value) := by
    induction pairs with
    | nil => rfl
    | cons pair pairs ih =>
      rw [List.map_cons, List.mapM_cons, resolveCompare_eq (hnames pair (by simp)), ih fun p hp => hnames p (by simp [hp])]
      rfl
  rw [resolveExpr, resolveExprWithMeta, hmap]
  rfl

theorem mem_scopeOf (htenant : ∀ p ∈ tenant.toList, p.1 ∈ memberNames admin.info) {p : String × Value}
    (hp : p ∈ scopeOf admin pk tenant) : p.1 ∈ memberNames admin.info := by
  rcases List.mem_cons.mp hp with rfl | hp
  · exact ModelAdmin.pk_name_mem
  · obtain ⟨q, hq, rfl⟩ := List.mem_map.mp hp
    exact htenant q hq

theorem scopedPkQueryset_eq (htenant : ∀ p ∈ tenant.toList, p.1 ∈ memberNames admin.info) :
    admin.scopedPkQueryset pk tenant = .ok (scopedTo admin pk tenant) := by
  have hcompares : (⟨admin.pk.name, .i64 pk⟩ : UnresolvedCompare) :: tenantCompare tenant =
      (scopeOf admin pk tenant).map fun (name, value) => ⟨name, value⟩ := by
    cases tenant <;> rfl
  have hfilter : admin.objects.filter (.and (⟨admin.pk.name, .i64 pk⟩ :: tenantCompare tenant)) =
      .ok (scopedTo admin pk tenant) := by
    rw [QuerySet.filter, hcompares, resolveExpr_eq fun p hp => mem_scopeOf htenant hp]
    rfl
  rw [ModelAdmin.scopedPkQueryset, admin.primaryKey_eq]
  exact congrArg Rest.internal hfilter

variable [Fmt] (S : AdminServer) (db : Tables Cell)

theorem keeps_scopedTo (htenant : ∀ p ∈ tenant.toList, p.1 ∈ memberNames admin.info) (r : Row Cell) :
    (scopedTo admin pk tenant).keeps S.toServer db r = (admin.objects.keeps S.toServer db r &&
      (S.has admin.pk.columnName pk r && tenant.toList.all fun (field, id) => S.has (admin.column field) id r)) := by
  rw [scopedTo, keeps_equalTo S.toServer db admin.objects fun p hp => ⟨_, ModelAdmin.fieldToCol_eq (mem_scopeOf htenant hp)⟩,
    scopeOf, List.all_cons, List.all_map]
  congr 2
  exact congrArg (S.has · pk r) ModelAdmin.column_pk

end Scope

/-! ### Values of forms -/

section Forms
variable [Rest.Parse] {fields : List FieldMeta} {relations : List RelationMeta} {form : FormData}
  {values : List (String × Value)}

omit [Rest.Parse] in
theorem eq_values_of_no_error {ε : Type} {read : List (String × Except ε Value)} (h : read.filterMap Rest.errorOf = []) :
    read = (read.filterMap Rest.valueOf).map fun p => (p.1, .ok p.2) := by
  induction read with
  | nil => rfl
  | cons p read ih =>
    obtain ⟨name, result⟩ := p
    cases result with
    | error e => simp [Rest.errorOf] at h
    | ok v =>
      have hvalue : Rest.valueOf (name, (.ok v : Except ε Value)) = some (name, v) := rfl
      rw [List.filterMap_cons_none rfl] at h
      rw [List.filterMap_cons_some hvalue, List.map_cons, ← ih h]

/-- A form without errors gives a value for each field and each relation. -/
theorem readForm_eq_ok (h : readForm fields relations form = some (.ok values)) :
    ∃ ofFields, List.Forall₂ (fun f p => parseFieldValue f (form f.name) = some (.ok p.2) ∧ p.1 = f.name) fields ofFields ∧
      ∃ ofRelations, List.Forall₂ (fun r p => parseRelationValue r (form r.fieldName) = .ok p.2 ∧ p.1 = r.fieldName)
        relations ofRelations ∧ values = ofFields ++ ofRelations := by
  obtain ⟨ofFields, hfields, h⟩ := Option.bind_eq_some_iff.mp h
  have h := Option.some.inj h
  split at h
  · rename_i herrors
    have hread := eq_values_of_no_error herrors
    rw [Except.ok.inj h] at hread
    obtain ⟨vs, ws, rfl, hvs, hws⟩ := List.map_eq_append_iff.mp hread.symm
    refine ⟨vs, ?_, ws, ?_, rfl⟩
    · rw [← hvs, Option.mapM_eq_some, List.forall₂_map_right_iff] at hfields
      refine hfields.imp fun f p hp => ?_
      obtain ⟨result, hresult, heq⟩ := Option.map_eq_some_iff.mp hp
      obtain ⟨hname, rfl⟩ := Prod.mk.inj heq
      exact ⟨hresult, hname.symm⟩
    · have hmap := List.forall₂_eq_eq_eq ▸ hws.symm
      rw [List.forall₂_map_left_iff, List.forall₂_map_right_iff] at hmap
      refine hmap.imp fun r p hp => ?_
      obtain ⟨hname, hvalue⟩ := Prod.mk.inj hp
      exact ⟨hvalue, hname.symm⟩
  · cases h

theorem readForm_names (h : readForm fields relations form = some (.ok values)) :
    values.map (·.1) = fields.map (·.name) ++ relations.map (·.fieldName) := by
  obtain ⟨vs, hfields, ws, hrelations, rfl⟩ := readForm_eq_ok h
  have names {α : Type} {as : List α} {ps : List (String × Value)} {R : α → String × Value → Prop} {name : α → String}
      (h : List.Forall₂ (fun a p => R a p ∧ p.1 = name a) as ps) : ps.map (·.1) = as.map name := by
    induction h with
    | nil => rfl
    | cons hab _ ih => rw [List.map_cons, List.map_cons, ih, hab.2]
  rw [List.map_append, names hfields, names hrelations]

/-- The values of a form are for different members. -/
theorem readForm_members {admin : ModelAdmin} (hfields : fields.Sublist admin.info.fields)
    (hrelations : relations.Sublist admin.info.relations) (h : readForm fields relations form = some (.ok values)) :
    (values.map (·.1)).Nodup ∧ ∀ p ∈ values, p.1 ∈ memberNames admin.info := by
  have hsub : (values.map (·.1)).Sublist (memberNames admin.info) := by
    rw [readForm_names h]
    exact (hfields.map _).append (hrelations.map _)
  exact ⟨admin.names_nodup.sublist hsub, fun p hp => hsub.subset (List.mem_map_of_mem hp)⟩

end Forms

section Stored
variable {admin : ModelAdmin} {values : List (String × Value)}

theorem lookup_storedCells (hnames : ∀ p ∈ values, p.1 ∈ memberNames admin.info) {name : String}
    (hname : name ∈ memberNames admin.info) :
    (storedCells admin.info values).lookup (admin.column name) = (values.lookup name).map (storedCell admin.info name) := by
  induction values with
  | nil => rfl
  | cons p values ih =>
    have hcons : storedCells admin.info (p :: values) =
        (admin.column p.1, storedCell admin.info p.1 p.2) :: storedCells admin.info values := rfl
    rw [hcons, List.lookup_cons, List.lookup_cons, ih fun q hq => hnames q (by simp [hq])]
    by_cases heq : name = p.1
    · subst heq
      simp
    · have hcolumn : admin.column name ≠ admin.column p.1 :=
        fun h => heq (ModelAdmin.column_inj hname (hnames p (by simp)) h)
      simp [beq_eq_false_iff_ne.mpr heq, beq_eq_false_iff_ne.mpr hcolumn]

theorem storedCells_columns : (storedCells admin.info values).map (·.1) = (values.map (·.1)).map admin.column := by
  simp [storedCells, ModelAdmin.column]

/-- Values for different members are stored in different columns. -/
theorem storedCells_nodup (hnames : (values.map (·.1)).Nodup) (hmembers : ∀ p ∈ values, p.1 ∈ memberNames admin.info) :
    ((storedCells admin.info values).map (·.1)).Nodup := by
  rw [storedCells_columns]
  refine hnames.map_on fun name hname name' hname' heq => ?_
  obtain ⟨p, hp, rfl⟩ := List.mem_map.mp hname
  obtain ⟨p', hp', rfl⟩ := List.mem_map.mp hname'
  exact ModelAdmin.column_inj (hmembers p hp) (hmembers p' hp') heq

end Stored

/-! ### Rows that are inserted -/

section Insert
variable {S : AdminServer} {db after : Tables Cell} {admin : ModelAdmin} {values : List (String × Value)}
  {effects : List Effect} {result : Except Stop Int}

/-- The members that an `INSERT` of values names. -/
def insertable (m : ModelMeta) (values : List (String × Value)) : List (String × Value) :=
  values.filter fun (name, _) => !(m.field? name).any (·.auto)

theorem insertColumn_eq {p : String × Value} (hname : p.1 ∈ memberNames admin.info) :
    ∃ entry, QuerySet.insertColumn admin.info p = .ok entry ∧
      entry.toList.map (fun q => (q.1, q.2.cell)) = storedCells admin.info (insertable admin.info [p]) := by
  rw [QuerySet.insertColumn]
  rcases List.mem_append.mp hname with hname | hname
  · obtain ⟨f, hf, hfname⟩ := List.mem_map.mp hname
    have hfield : admin.info.field? p.1 = some f := hfname ▸ ModelAdmin.field?_eq hf
    have hcol : fieldToCol admin.info p.1 = .column f.columnName := by rw [fieldToCol, hfield]
    simp only [hfield]
    cases hauto : f.auto with
    | true => exact ⟨none, rfl, by simp [insertable, hfield, hauto, storedCells]⟩
    | false => exact ⟨_, rfl, by simp [insertable, hfield, hauto, storedCells, hcol, storedCell, ColRef.name]⟩
  · obtain ⟨r, hr, hrname⟩ := List.mem_map.mp hname
    obtain ⟨hfield, hrelation⟩ : admin.info.field? p.1 = none ∧ admin.info.relation? p.1 = some r :=
      hrname ▸ ModelAdmin.relation?_eq hr
    have hcol : fieldToCol admin.info p.1 = .column r.fieldName := by rw [fieldToCol, hfield, hrelation]
    simp only [hfield, hrelation]
    exact ⟨_, rfl, by simp [insertable, hfield, storedCells, hcol, storedCell, ColRef.name]⟩

theorem mapM_insertColumn (hnames : ∀ p ∈ values, p.1 ∈ memberNames admin.info) :
    ∃ processed, values.mapM (QuerySet.insertColumn admin.info) = .ok processed ∧
      (processed.filterMap id).map (fun p => (p.1, p.2.cell)) = storedCells admin.info (insertable admin.info values) := by
  induction values with
  | nil => exact ⟨[], rfl, rfl⟩
  | cons p values ih =>
    obtain ⟨processed, hprocessed, hcells⟩ := ih fun q hq => hnames q (by simp [hq])
    obtain ⟨entry, hentry, hcell⟩ := insertColumn_eq (hnames p (by simp))
    refine ⟨entry :: processed, by rw [List.mapM_cons, hentry, hprocessed]; rfl, ?_⟩
    have hsplit : storedCells admin.info (insertable admin.info (p :: values)) =
        storedCells admin.info (insertable admin.info [p]) ++ storedCells admin.info (insertable admin.info values) := by
      rw [storedCells, storedCells, storedCells, insertable, insertable, insertable, ← List.map_append, ← List.filter_append,
        List.singleton_append]
    rw [hsplit, ← hcell, ← hcells]
    cases entry <;> simp

/-- The row of the values that an `INSERT` names. -/
def givenRow (m : ModelMeta) (values : List (String × Value)) : Row Cell := storedCells m (insertable m values)

theorem insertRaw_eq (hnames : ∀ p ∈ values, p.1 ∈ memberNames admin.info) :
    ∃ s, QuerySet.insertRaw admin.info values = .ok s ∧ s.table = admin.info.tableName ∧
      s.returning = admin.pk.columnName ∧ Server.insertedRows s.source = [givenRow admin.info values] ∧
      ∀ cols rows, s.source = .values cols rows → cols = (givenRow admin.info values).map (·.1) := by
  obtain ⟨processed, hprocessed, hcells⟩ := mapM_insertColumn hnames
  rw [QuerySet.insertRaw, admin.primaryKey_eq]
  simp only [hprocessed]
  refine ⟨_, rfl, rfl, rfl, ?_, ?_⟩
  · simp only
    split
    · rename_i hnil
      rw [hnil] at hcells
      rw [givenRow, ← hcells]
      rfl
    · rw [givenRow, ← hcells, Server.insertedRows, List.map_singleton, List.map_map, List.zip_map']
      rfl
  · intro cols rows hsource
    simp only at hsource
    split at hsource
    · cases hsource
    · cases hsource
      rw [givenRow, ← hcells, List.map_map]
      rfl

theorem runInsert_eq_ok (hnames : ∀ p ∈ values, p.1 ∈ memberNames admin.info)
    (h : (QuerySet.insertRaw admin.info values).bind (AdminCall.runInsert S db admin.info) = .ok (after, effects, result)) :
    let row := S.complete db admin.info.tableName (givenRow admin.info values)
    after = Function.update db admin.info.tableName (db admin.info.tableName ++ [row]) ∧
      effects = [.inserted admin.info row] ∧ result = stopErr (Server.returnedPk admin.pk.columnName [row]) ∧
      (S.dialect = .postgres → ((givenRow admin.info values).map (·.1)).Nodup) := by
  obtain ⟨s, hs, htable, hreturning, hrows, hcols⟩ := insertRaw_eq hnames
  rw [hs] at h
  obtain ⟨⟨after', rows⟩, hrun, h⟩ := Except.bind_eq_ok.mp (stopErr_eq_ok.mp h)
  cases h
  have hplain (hrun : S.runInsert db s = .ok (after, rows)) :
      after = Function.update db admin.info.tableName (db admin.info.tableName ++
        [S.complete db admin.info.tableName (givenRow admin.info values)]) ∧
      rows = [S.complete db admin.info.tableName (givenRow admin.info values)] := by
    rw [Server.runInsert, hrows, htable] at hrun
    obtain ⟨after'', hcommit, hrun⟩ := Except.bind_eq_ok.mp hrun
    cases hrun
    exact ⟨Server.commit_ok hcommit, rfl⟩
  rw [hreturning]
  rw [Server.runInsertOnce] at hrun
  split at hrun
  · rename_i hdialect hsource
    split at hrun
    · rename_i hnodup
      obtain ⟨rfl, rfl⟩ := hplain hrun
      exact ⟨rfl, rfl, rfl, fun _ => hcols _ _ hsource ▸ hnodup⟩
    · cases hrun
  · rename_i hno
    obtain ⟨rfl, rfl⟩ := hplain hrun
    refine ⟨rfl, rfl, rfl, fun hdialect => ?_⟩
    cases hsource : s.source with
    | values cols rows => exact absurd hsource (hno cols rows hdialect)
    | defaultValues =>
      rw [hsource] at hrows
      rw [← List.singleton_inj.mp hrows]
      exact .nil

variable (db) in
/-- A server that refuses nothing stores the row. -/
theorem runInsert_of_accepts (hnames : ∀ p ∈ values, p.1 ∈ memberNames admin.info)
    (hnodup : ((givenRow admin.info values).map (·.1)).Nodup) (haccepts : ∀ before after, S.refuses before after = none) :
    let row := S.complete db admin.info.tableName (givenRow admin.info values)
    (QuerySet.insertRaw admin.info values).bind (AdminCall.runInsert S db admin.info) =
      .ok (Function.update db admin.info.tableName (db admin.info.tableName ++ [row]), [.inserted admin.info row],
        stopErr (Server.returnedPk admin.pk.columnName [row])) := by
  obtain ⟨s, hs, htable, hreturning, hrows, hcols⟩ := insertRaw_eq hnames
  have hplain : S.runInsert db s = .ok (Function.update db admin.info.tableName (db admin.info.tableName ++
      [S.complete db admin.info.tableName (givenRow admin.info values)]),
        [S.complete db admin.info.tableName (givenRow admin.info values)]) := by
    rw [Server.runInsert, hrows, htable, Server.commit, haccepts]
    rfl
  have honce : S.runInsertOnce db s = S.runInsert db s := by
    rw [Server.runInsertOnce]
    split
    · rename_i cols rows _ hsource
      rw [if_pos (hcols cols rows hsource ▸ hnodup)]
    · rfl
  rw [hs]
  show AdminCall.runInsert S db admin.info s = _
  rw [AdminCall.runInsert, honce, hplain, hreturning]
  rfl

end Insert

end Djangors.Admin
