import Djangors.Migrations.Plan
import Djangors.Theorems.ColumnTypes

/-! # Two planners

The plan for the registered models and the plan for their snapshots. -/

namespace Djangors.Migrations
open Db Orm Relation

/-! ### The maps of models by name -/

theorem find?_of_nodup {α : Type} {key : α → String} {xs : List α} (distinct : (xs.map key).Nodup) {x : α}
    (hx : x ∈ xs) : xs.reverse.find? (fun y => key y == key x) = some x := by
  cases h : xs.reverse.find? (fun y => key y == key x) with
  | none => exact absurd (beq_self_eq_true _) (List.find?_eq_none.mp h x (List.mem_reverse.mpr hx))
  | some y =>
    have hy := List.mem_reverse.mp (List.mem_of_find?_eq_some h)
    have heq := List.find?_some h
    rw [List.inj_on_of_nodup_map distinct hy hx (beq_iff_eq.mp heq)]

section Registered

/-- Structs have different names, and the targets of relations are among the models. -/
structure Named (inv : Inventory) : Prop where
  structs : (inv.models.map (·.structName)).Nodup
  registered : ∀ m ∈ inv.models, ∀ r ∈ m.relations, inv.target r.target ∈ inv.models

section Named
variable {inv : Inventory} (named : Named inv)
include named

theorem byStruct_target {m : ModelMeta} (hm : m ∈ inv.models) {r : RelationMeta} (hr : r ∈ m.relations) :
    byStruct inv.models (inv.target r.target).structName = some (inv.target r.target) :=
  find?_of_nodup named.structs (named.registered m hm r hr)

/-- `dfs` enters the targets of the relations. -/
theorem mem_dependencies {m b : ModelMeta} (hm : m ∈ inv.models) :
    b ∈ dependencies inv m ↔ ∃ r ∈ m.relations, inv.target r.target = b := by
  simp only [dependencies, List.mem_filterMap]
  refine exists_congr fun r => and_congr_right fun hr => ?_
  rw [byStruct_target named hm hr, Option.some.injEq]

theorem snapshot_structs : ((registeredModelsSnapshot inv).map (·.structName)).Nodup := by
  simpa [registeredModelsSnapshot, ModelMeta.snapshot, Function.comp_def] using named.structs

theorem byName_target {m : ModelMeta} (hm : m ∈ inv.models) {r : RelationMeta} (hr : r ∈ m.relations) :
    Snapshot.byName (registeredModelsSnapshot inv) (inv.target r.target).structName =
      some ((inv.target r.target).snapshot inv.target) :=
  find?_of_nodup (x := (inv.target r.target).snapshot inv.target) (snapshot_structs named)
    (List.mem_map_of_mem (named.registered m hm r hr))

/-- `visit` enters the snapshots of what `dfs` enters. -/
theorem targets_snapshot {m : ModelMeta} (hm : m ∈ inv.models) :
    Snapshot.targets (Snapshot.byName (registeredModelsSnapshot inv)) (m.snapshot inv.target) =
      (dependencies inv m).map (·.snapshot inv.target) := by
  simp only [Snapshot.targets, ModelMeta.snapshot, List.filterMap_map, dependencies, List.map_filterMap]
  refine List.filterMap_congr fun r hr => ?_
  rw [byStruct_target named hm hr]
  exact byName_target named hm hr

end Named

theorem dependencies_closed (inv : Inventory) : Dfs.Closed (dependencies inv) inv.models := by
  intro m _ b hb
  obtain ⟨r, _, hr⟩ := List.mem_filterMap.mp hb
  exact List.mem_reverse.mp (List.mem_of_find?_eq_some hr)

/-- The snapshots are visited in the order in which a plain search visits the models. -/
theorem ordered_snapshot {inv : Inventory} (named : Named inv) : Snapshot.ordered (registeredModelsSnapshot inv) =
    (Dfs.visitAll (·.structName) (dependencies inv) (inv.models.length + 1) inv.models ⟨[], []⟩).order.map
      (·.snapshot inv.target) := by
  have h : Dfs.visitAll (·.structName) (Snapshot.targets (Snapshot.byName (registeredModelsSnapshot inv)))
      (inv.models.length + 1) (registeredModelsSnapshot inv) ⟨[], []⟩ =
        (Dfs.visitAll (·.structName) (dependencies inv) (inv.models.length + 1) inv.models ⟨[], []⟩).map
          (·.snapshot inv.target) :=
    Dfs.visitAll_map (dependencies_closed inv) (fun _ _ => rfl) (fun m hm => targets_snapshot named hm)
      (inv.models.length + 1) (fun m hm => hm) ⟨[], []⟩
  have hlen : (registeredModelsSnapshot inv).length = inv.models.length := List.length_map _
  rw [Snapshot.ordered, hlen, h]
  rfl

theorem named (reg : Registry) : Named reg := ⟨reg.structs, fun m hm r hr => (reg.registered m hm r hr).1⟩

variable {reg : Registry}

/-- Two planned lists of operations are of one plan, as sets. -/
def PlannersAgree [CaseMap] (reg : Registry) (d : Dialect) : Prop :=
  ∃ ops ops', buildCreateAllPlan reg d = .ok ops ∧
    buildCreatePlanFromSnapshots (registeredModelsSnapshot reg) d = .ok ops' ∧ ∀ op, op ∈ ops ↔ op ∈ ops'

/-- The relations between distinct models lead nowhere back. -/
def Acyclic (reg : Registry) : Prop :=
  ∀ m ∈ reg.models, ¬ TransGen (fun a b => (∃ r ∈ a.relations, reg.target r.target = b) ∧ b ≠ a) m m

/-- What both planners treat alike: models without relations to themselves, without choices, whose fields
    have types, whose relations find the primary keys they need, and whose many-to-many relations
    join keys that are not generated. -/
structure Alike (reg : Registry) (d : Dialect) : Prop where
  others : ∀ m ∈ reg.models, ∀ r ∈ m.relations, r.target ≠ m.structName
  choices : ∀ m ∈ reg.models, ∀ f ∈ m.fields, f.choices = []
  typed : ∀ m ∈ reg.models, ∀ f ∈ m.fields, Typed d f.kind f.maxLength
  targetKeys : ∀ m ∈ reg.models, ∀ r ∈ m.relations, (reg.target r.target).primaryKey?.isSome
  sourceKeys : ∀ m ∈ reg.models, ∀ r ∈ m.relations, r.kind = .manyToMany → m.primaryKey?.isSome
  joined : ∀ m ∈ reg.models, ∀ r ∈ m.relations, r.kind = .manyToMany →
    ∀ pk, m.primaryKey? = some pk ∨ (reg.target r.target).primaryKey? = some pk → isSerial pk.kind pk.auto = false

/-! ### One model -/

variable {d : Dialect} {m : ModelMeta}

theorem fieldColumn_ok {f : FieldMeta} : (∃ c, fieldColumn d f = .ok c) ↔ Typed d f.kind f.maxLength := by
  have htyped : (∃ t, sqlTypeFor f.kind f.maxLength f.auto f.name d = .ok t) ↔ Typed d f.kind f.maxLength :=
    sqlTypeFor_ok_iff
  rw [← htyped]
  constructor
  · rintro ⟨c, hc⟩
    obtain ⟨t, ht, _⟩ := Except.bind_eq_ok.mp hc
    exact ⟨t, ht⟩
  · rintro ⟨t, ht⟩
    exact ⟨_, Except.bind_eq_ok.mpr ⟨t, ht, rfl⟩⟩

/-- The operations of a model, one part after the other. -/
theorem modelOperations_ok [CaseMap] {inv : Inventory} {ops : List Operation} (h : modelOperations inv d m = .ok ops) :
    ∃ fields relations joins, m.fields.mapM (fieldColumn d) = .ok fields ∧
      (m.relations.filter (·.kind != .manyToMany)).mapM (relationColumn inv d) = .ok relations ∧
      (m.relations.filter (·.kind == .manyToMany)).mapM (joinTable inv d m) = .ok joins ∧
      ops = .createTable m.tableName (fields ++ relations) (buildCheckConstraints m) :: indexOperations m ++ joins := by
  obtain ⟨fields, hfields, h⟩ := Except.bind_eq_ok.mp h
  obtain ⟨relations, hrelations, h⟩ := Except.bind_eq_ok.mp h
  obtain ⟨joins, hjoins, h⟩ := Except.bind_eq_ok.mp h
  cases h
  exact ⟨fields, relations, joins, hfields, hrelations, hjoins, rfl⟩

theorem relationColumn_snapshot (hm : m ∈ reg.models) {r : RelationMeta} (hr : r ∈ m.relations)
    (key : (reg.target r.target).primaryKey?.isSome) :
    Snapshot.relationColumn (Snapshot.byName (registeredModelsSnapshot reg)) d (r.snapshot reg.target) =
      relationColumn reg d r := by
  obtain ⟨pk, hpk⟩ := Option.isSome_iff_exists.mp key
  have hname := byName_target (named reg) hm hr
  have hkey : ((reg.target r.target).snapshot reg.target).primaryKey? = some pk.snapshot := by
    rw [ModelMeta.snapshot_primaryKey?, hpk]
    rfl
  simp only [Snapshot.relationColumn, RelationMeta.snapshot, hname, hkey, relationColumn, hpk]
  rfl

theorem joinTable_snapshot [CaseMap] (hm : m ∈ reg.models) {r : RelationMeta} (hr : r ∈ m.relations)
    {sourcePk targetPk : FieldMeta} (hsource : m.primaryKey? = some sourcePk)
    (htarget : (reg.target r.target).primaryKey? = some targetPk)
    (source : isSerial sourcePk.kind sourcePk.auto = false) (target : isSerial targetPk.kind targetPk.auto = false) :
    Snapshot.joinTable (Snapshot.byName (registeredModelsSnapshot reg)) d (m.snapshot reg.target)
      (r.snapshot reg.target) = joinTable reg d m r := by
  have hname := byName_target (named reg) hm hr
  have hkey : ((reg.target r.target).snapshot reg.target).primaryKey? = some targetPk.snapshot := by
    rw [ModelMeta.snapshot_primaryKey?, htarget]
    rfl
  have hkey' : (m.snapshot reg.target).primaryKey? = some sourcePk.snapshot := by
    rw [ModelMeta.snapshot_primaryKey?, hsource]
    rfl
  simp only [Snapshot.joinTable, RelationMeta.snapshot, hname, hkey, hkey', joinTable, hsource, htarget,
    fieldMetaToSqlType, sqlTypeFor_auto source, sqlTypeFor_auto target]
  rfl

/-- Where both planners treat the models alike, a model and its snapshot have the same operations. -/
theorem modelOperations_snapshot [CaseMap] (alike : Alike reg d) (hm : m ∈ reg.models) :
    Snapshot.modelOperations (Snapshot.byName (registeredModelsSnapshot reg)) d (m.snapshot reg.target) =
      modelOperations reg d m := by
  have hfields : (m.snapshot reg.target).fields.mapM (Snapshot.fieldColumn d) = m.fields.mapM (fieldColumn d) :=
    List.mapM_map
  have hrelations : ((m.snapshot reg.target).relations.filter (·.kind != .manyToMany)).mapM
      (Snapshot.relationColumn (Snapshot.byName (registeredModelsSnapshot reg)) d) =
        (m.relations.filter (·.kind != .manyToMany)).mapM (relationColumn reg d) := by
    rw [ModelMeta.snapshot, List.filter_map, List.mapM_map]
    refine Except.mapM_congr fun r hr => ?_
    have hr := (List.mem_filter.mp hr).1
    exact relationColumn_snapshot hm hr (alike.targetKeys m hm r hr)
  have hjoins : ((m.snapshot reg.target).relations.filter (·.kind == .manyToMany)).mapM
      (Snapshot.joinTable (Snapshot.byName (registeredModelsSnapshot reg)) d (m.snapshot reg.target)) =
        (m.relations.filter (·.kind == .manyToMany)).mapM (joinTable reg d m) := by
    rw [show (m.snapshot reg.target).relations = m.relations.map (·.snapshot reg.target) from rfl, List.filter_map,
      List.mapM_map]
    refine Except.mapM_congr fun r hr => ?_
    obtain ⟨hr, hkind⟩ := List.mem_filter.mp hr
    have hkind : r.kind = .manyToMany := beq_iff_eq.mp hkind
    obtain ⟨sourcePk, hsource⟩ := Option.isSome_iff_exists.mp (alike.sourceKeys m hm r hr hkind)
    obtain ⟨targetPk, htarget⟩ := Option.isSome_iff_exists.mp (alike.targetKeys m hm r hr)
    exact joinTable_snapshot hm hr hsource htarget (alike.joined m hm r hr hkind _ (.inl hsource))
      (alike.joined m hm r hr hkind _ (.inr htarget))
  have hindexes : Snapshot.indexOperations (m.snapshot reg.target) = indexOperations m := by
    simp only [Snapshot.indexOperations, ModelMeta.snapshot, List.filter_map, List.map_map, indexOperations]
    rfl
  have hchecks : buildCheckConstraints m = [] := by
    simp only [buildCheckConstraints, List.map_eq_nil_iff, List.filter_eq_nil_iff]
    intro f hf
    simp [alike.choices m hm f hf]
  simp only [Snapshot.modelOperations, modelOperations, hfields, hrelations, hjoins, hindexes, hchecks]
  rfl

/-- What a plan for the models needs: types for the fields, and the primary keys that the relations join. -/
structure Typeable (inv : Inventory) (d : Dialect) : Prop where
  registered : ∀ m ∈ inv.models, ∀ r ∈ m.relations, inv.target r.target ∈ inv.models
  typed : ∀ m ∈ inv.models, ∀ f ∈ m.fields, Typed d f.kind f.maxLength
  targetKeys : ∀ m ∈ inv.models, ∀ r ∈ m.relations, (inv.target r.target).primaryKey?.isSome
  sourceKeys : ∀ m ∈ inv.models, ∀ r ∈ m.relations, r.kind = .manyToMany → m.primaryKey?.isSome

theorem Alike.typeable (alike : Alike reg d) : Typeable reg d :=
  ⟨(named reg).registered, alike.typed, alike.targetKeys, alike.sourceKeys⟩

theorem modelOperations_isOk [CaseMap] {inv : Inventory} (typeable : Typeable inv d) (hm : m ∈ inv.models) :
    ∃ ops, modelOperations inv d m = .ok ops := by
  have typedKey : ∀ {m : ModelMeta} {pk : FieldMeta} (_ : m ∈ inv.models), m.primaryKey? = some pk → ∀ auto,
      ∃ t, sqlTypeFor pk.kind pk.maxLength auto pk.name d = .ok t := fun hm hpk _ =>
    sqlTypeFor_ok_iff.mpr (typeable.typed _ hm _ (List.mem_of_find?_eq_some hpk))
  obtain ⟨fields, hfields⟩ := Except.mapM_isOk.mpr fun f hf => fieldColumn_ok.mpr (typeable.typed m hm f hf)
  have hrelations : ∃ relations, (m.relations.filter (·.kind != .manyToMany)).mapM (relationColumn inv d) =
      .ok relations := by
    refine Except.mapM_isOk.mpr fun r hr => ?_
    have hr := (List.mem_filter.mp hr).1
    obtain ⟨pk, hpk⟩ := Option.isSome_iff_exists.mp (typeable.targetKeys m hm r hr)
    obtain ⟨t, ht⟩ := typedKey (typeable.registered m hm r hr) hpk false
    simp only [relationColumn, hpk]
    exact ⟨_, Except.bind_eq_ok.mpr ⟨t, ht, rfl⟩⟩
  have hjoins : ∃ joins, (m.relations.filter (·.kind == .manyToMany)).mapM (joinTable inv d m) = .ok joins := by
    refine Except.mapM_isOk.mpr fun r hr => ?_
    obtain ⟨hr, hkind⟩ := List.mem_filter.mp hr
    obtain ⟨sourcePk, hsource⟩ := Option.isSome_iff_exists.mp (typeable.sourceKeys m hm r hr (beq_iff_eq.mp hkind))
    obtain ⟨targetPk, htarget⟩ := Option.isSome_iff_exists.mp (typeable.targetKeys m hm r hr)
    obtain ⟨t, ht⟩ := typedKey hm hsource sourcePk.auto
    obtain ⟨t', ht'⟩ := typedKey (typeable.registered m hm r hr) htarget targetPk.auto
    simp only [joinTable, hsource, htarget]
    exact ⟨_, Except.bind_eq_ok.mpr ⟨t, ht, Except.bind_eq_ok.mpr ⟨t', ht', rfl⟩⟩⟩
  obtain ⟨relations, hrelations⟩ := hrelations
  obtain ⟨joins, hjoins⟩ := hjoins
  exact ⟨_, Except.bind_eq_ok.mpr ⟨fields, hfields, Except.bind_eq_ok.mpr ⟨relations, hrelations,
    Except.bind_eq_ok.mpr ⟨joins, hjoins, rfl⟩⟩⟩⟩

/-- A `CREATE TABLE` planned for snapshots has no checks, and none of its foreign keys is generated. -/
theorem snapshot_createTable [CaseMap] {byName : String → Option ModelSnapshot} {s : ModelSnapshot}
    {ops : List Operation} (h : Snapshot.modelOperations byName d s = .ok ops) {t : String} {cols : List ColumnDef}
    {checks : List String} (hop : .createTable t cols checks ∈ ops) :
    checks = [] ∧ ∀ c ∈ cols, c.references ≠ none → (readType c.sqlType).2 = false := by
  obtain ⟨fields, hfields, h⟩ := Except.bind_eq_ok.mp h
  obtain ⟨relations, hrelations, h⟩ := Except.bind_eq_ok.mp h
  obtain ⟨joins, hjoins, h⟩ := Except.bind_eq_ok.mp h
  cases h
  rcases List.mem_append.mp hop with hop | hop
  · rcases List.mem_cons.mp hop with heq | hop
    · cases heq
      refine ⟨rfl, fun c hc href => ?_⟩
      rcases List.mem_append.mp hc with hc | hc
      · obtain ⟨f, _, hf⟩ := Except.exists_of_mem_mapM hfields hc
        obtain ⟨ty, _, hf⟩ := Except.bind_eq_ok.mp hf
        cases hf
        exact absurd rfl href
      · obtain ⟨r, _, hr⟩ := Except.exists_of_mem_mapM hrelations hc
        unfold Snapshot.relationColumn at hr
        split at hr
        · cases hr
        · split at hr
          · cases hr
          · obtain ⟨ty, hty, hr⟩ := Except.bind_eq_ok.mp hr
            cases hr
            exact congrArg Prod.snd (plain_of_sqlTypeFor hty).read
    · obtain ⟨i, _, hi⟩ := List.mem_map.mp hop
      cases hi
  · obtain ⟨r, _, hr⟩ := Except.exists_of_mem_mapM hjoins hop
    unfold Snapshot.joinTable at hr
    split at hr
    · cases hr
    · split at hr
      · cases hr
      · split at hr
        · cases hr
        · obtain ⟨ty, hty, hr⟩ := Except.bind_eq_ok.mp hr
          obtain ⟨ty', hty', hr⟩ := Except.bind_eq_ok.mp hr
          cases hr
          refine ⟨rfl, fun c hc _ => ?_⟩
          simp only [List.mem_cons, List.not_mem_nil, or_false] at hc
          rcases hc with rfl | rfl
          · exact congrArg Prod.snd (plain_of_sqlTypeFor hty).read
          · exact congrArg Prod.snd (plain_of_sqlTypeFor hty').read

/-- What a plan for the registered models says about each of them. -/
theorem buildCreateAllPlan_ok [CaseMap] {ops : List Operation} (h : buildCreateAllPlan reg d = .ok ops) :
    (∀ m ∈ reg.models, m ∉ dependencies reg m) ∧
      ∀ m ∈ reg.models, ∃ mops, modelOperations reg d m = .ok mops ∧ ∀ op ∈ mops, op ∈ ops := by
  obtain ⟨order, horder, h⟩ := Except.bind_eq_ok.mp h
  obtain ⟨operations, hoperations, h⟩ := Except.bind_eq_ok.mp h
  cases h
  unfold orderedModels at horder
  split at horder
  · rename_i g hg
    cases horder
    refine ⟨Dfs.searchAll_loopless (dependencies_closed reg) reg.structs (by omega) hg, fun m hm => ?_⟩
    have hperm : (Dfs.visitAll (·.structName) (dependencies reg) (reg.models.length + 1) reg.models ⟨[], []⟩).order.Perm
        reg.models := Dfs.visitAll_perm (dependencies_closed reg) reg.structs reg.models.length
    have hmem : m ∈ g.order := by
      rw [← (Dfs.searchAll_agrees hg).order]
      exact hperm.mem_iff.mpr hm
    obtain ⟨mops, hmops, hm⟩ := Except.exists_mapM_of_mem hoperations hmem
    exact ⟨mops, hm, fun op hop => List.mem_flatten.mpr ⟨mops, hmops, hop⟩⟩
  · cases horder

theorem joinTable_ok [CaseMap] {inv : Inventory} {r : RelationMeta} {op : Operation} (h : joinTable inv d m r = .ok op) :
    ∃ sourcePk targetPk sourceType targetType, m.primaryKey? = some sourcePk ∧
      (inv.target r.target).primaryKey? = some targetPk ∧ fieldMetaToSqlType sourcePk d = .ok sourceType ∧
      fieldMetaToSqlType targetPk d = .ok targetType ∧
      op = .createTable (m2mThroughTable m r)
        [joinColumn (CaseMap.toLowercase m.structName ++ "_id") sourceType m.tableName sourcePk.columnName,
          joinColumn (CaseMap.toLowercase (inv.target r.target).structName ++ "_id") targetType
            (inv.target r.target).tableName targetPk.columnName] [] := by
  unfold joinTable at h
  simp only at h
  split at h
  · cases h
  · split at h
    · cases h
    · rename_i sourcePk hsource _ targetPk htarget
      obtain ⟨sourceType, hs, h⟩ := Except.bind_eq_ok.mp h
      obtain ⟨targetType, ht, h⟩ := Except.bind_eq_ok.mp h
      cases h
      exact ⟨sourcePk, targetPk, sourceType, targetType, hsource, htarget, hs, ht, rfl⟩

/-- What the planners agree on they treat alike. -/
theorem PlannersAgree.alike [CaseMap] (agree : PlannersAgree reg d) : Alike reg d := by
  obtain ⟨ops, ops', hops, hops', same⟩ := agree
  obtain ⟨loopless, planned⟩ := buildCreateAllPlan_ok hops
  have snapshots : ∀ t cols checks, .createTable t cols checks ∈ ops →
      checks = [] ∧ ∀ c ∈ cols, c.references ≠ none → (readType c.sqlType).2 = false := by
    intro t cols checks hop
    obtain ⟨operations, hoperations, h⟩ := Except.bind_eq_ok.mp hops'
    cases h
    obtain ⟨sops, hsops, hop⟩ := List.mem_flatten.mp ((same _).mp hop)
    obtain ⟨s, _, hs⟩ := Except.exists_of_mem_mapM hoperations hsops
    exact snapshot_createTable hs hop
  -- a many-to-many relation has a join table among the operations
  have joins : ∀ m ∈ reg.models, ∀ r ∈ m.relations, r.kind = .manyToMany →
      ∃ op, joinTable reg d m r = .ok op ∧ op ∈ ops := by
    intro m hm r hr hkind
    obtain ⟨mops, hmops, hsub⟩ := planned m hm
    obtain ⟨fields, relations, joins, _, _, hjoins, rfl⟩ := modelOperations_ok hmops
    obtain ⟨op, hop, hr⟩ := Except.exists_mapM_of_mem hjoins (List.mem_filter.mpr ⟨hr, beq_iff_eq.mpr hkind⟩)
    exact ⟨op, hr, hsub op (List.mem_append_right _ hop)⟩
  refine ⟨fun m hm r hr heq => ?_, fun m hm f hf => ?_, fun m hm f hf => ?_, fun m hm r hr => ?_,
    fun m hm r hr hkind => ?_, fun m hm r hr hkind pk hpk => ?_⟩
  · obtain ⟨htarget, hname⟩ := reg.registered m hm r hr
    have hself := List.inj_on_of_nodup_map reg.structs htarget hm (hname.trans heq)
    exact loopless m hm ((mem_dependencies (named reg) hm).mpr ⟨r, hr, hself⟩)
  · obtain ⟨mops, hmops, hsub⟩ := planned m hm
    obtain ⟨fields, relations, joins, _, _, _, rfl⟩ := modelOperations_ok hmops
    have hchecks := (snapshots _ _ _ (hsub _ (List.mem_append_left _ (List.mem_cons_self ..)))).1
    rw [buildCheckConstraints, List.map_eq_nil_iff, List.filter_eq_nil_iff] at hchecks
    simpa using hchecks f hf
  · obtain ⟨mops, hmops, _⟩ := planned m hm
    obtain ⟨fields, relations, joins, hfields, _, _, _⟩ := modelOperations_ok hmops
    obtain ⟨c, _, hc⟩ := Except.exists_mapM_of_mem hfields hf
    exact fieldColumn_ok.mp ⟨c, hc⟩
  · by_cases hkind : r.kind = .manyToMany
    · obtain ⟨op, hop, _⟩ := joins m hm r hr hkind
      obtain ⟨_, _, _, _, _, htarget, _⟩ := joinTable_ok hop
      rw [htarget]
      rfl
    · obtain ⟨mops, hmops, _⟩ := planned m hm
      obtain ⟨fields, relations, joins, _, hrelations, _, _⟩ := modelOperations_ok hmops
      obtain ⟨c, _, hc⟩ := Except.exists_mapM_of_mem hrelations (List.mem_filter.mpr ⟨hr, bne_iff_ne.mpr hkind⟩)
      unfold relationColumn at hc
      simp only at hc
      split at hc
      · cases hc
      · rename_i pk hpk
        rw [hpk]
        rfl
  · obtain ⟨op, hop, _⟩ := joins m hm r hr hkind
    obtain ⟨_, _, _, _, hsource, _⟩ := joinTable_ok hop
    rw [hsource]
    rfl
  · obtain ⟨op, hop, hin⟩ := joins m hm r hr hkind
    obtain ⟨sourcePk, targetPk, sourceType, targetType, hsource, htarget, hs, ht, rfl⟩ := joinTable_ok hop
    have hplain := (snapshots _ _ _ hin).2
    rcases hpk with hpk | hpk
    · cases hsource.symm.trans hpk
      rw [← generated_of_sqlTypeFor hs]
      exact hplain _ (List.mem_cons_self ..) nofun
    · cases htarget.symm.trans hpk
      rw [← generated_of_sqlTypeFor ht]
      exact hplain _ (List.mem_cons_of_mem _ (List.mem_cons_self ..)) nofun

/-- Models that the planners treat alike have one plan. -/
theorem Alike.plans_eq [CaseMap] (alike : Alike reg d) (acyclic : Acyclic reg) :
    ∃ ops, buildCreateAllPlan reg d = .ok ops ∧
      buildCreatePlanFromSnapshots (registeredModelsSnapshot reg) d = .ok ops := by
  have noCycle : ∀ m ∈ reg.models, ¬ TransGen (fun x y => y ∈ dependencies reg x) m m := by
    intro m hm hcycle
    refine acyclic m hm (TransGen.mono (fun x y hxy => ?_) _ _ (Dfs.transGen_closed (dependencies_closed reg) hm hcycle).2)
    obtain ⟨hx, hy⟩ := hxy
    obtain ⟨r, hr, rfl⟩ := (mem_dependencies (named reg) hx).mp hy
    refine ⟨⟨r, hr, rfl⟩, fun heq => alike.others x hx r hr ?_⟩
    rw [← (reg.registered x hx r hr).2, heq]
  obtain ⟨g, hg, horder⟩ := Dfs.searchAll_ok (dependencies_closed reg) reg.structs noCycle (reg.models.length + 1)
  have hperm : (Dfs.visitAll (·.structName) (dependencies reg) (reg.models.length + 1) reg.models ⟨[], []⟩).order.Perm
      reg.models := Dfs.visitAll_perm (dependencies_closed reg) reg.structs reg.models.length
  have hmem : ∀ m ∈ g.order, m ∈ reg.models := fun m hm => hperm.mem_iff.mp (horder ▸ hm)
  obtain ⟨operations, hoperations⟩ := Except.mapM_isOk.mpr fun m hm => modelOperations_isOk alike.typeable (hmem m hm)
  have hsnapshots : (Snapshot.ordered (registeredModelsSnapshot reg)).mapM
      (Snapshot.modelOperations (Snapshot.byName (registeredModelsSnapshot reg)) d) = .ok operations := by
    rw [ordered_snapshot (named reg), ← horder, List.mapM_map, ← hoperations]
    exact Except.mapM_congr fun m hm => modelOperations_snapshot alike (hmem m hm)
  refine ⟨operations.flatten, ?_, Except.bind_eq_ok.mpr ⟨operations, hsnapshots, rfl⟩⟩
  have hordered : orderedModels reg = .ok g.order := by
    simp only [orderedModels, hg]
  exact Except.bind_eq_ok.mpr ⟨g.order, hordered, Except.bind_eq_ok.mpr ⟨operations, hoperations, rfl⟩⟩

/-- Relations that lead to models of a lower rank have no cycle. -/
theorem acyclic_of_rank (rank : ModelMeta → Nat)
    (lower : ∀ m ∈ reg.models, ∀ r ∈ m.relations, reg.target r.target ≠ m → rank (reg.target r.target) < rank m) :
    Acyclic reg := by
  intro m hm hcycle
  have descends : ∀ x, TransGen (fun a b => (∃ r ∈ a.relations, reg.target r.target = b) ∧ b ≠ a) m x →
      x ∈ reg.models ∧ rank x < rank m := by
    intro x h
    induction h with
    | single h =>
      obtain ⟨⟨r, hr, rfl⟩, hne⟩ := h
      exact ⟨(reg.registered m hm r hr).1, lower m hm r hr hne⟩
    | tail _ h ih =>
      obtain ⟨⟨r, hr, rfl⟩, hne⟩ := h
      exact ⟨(reg.registered _ ih.1 r hr).1, (lower _ ih.1 r hr hne).trans ih.2⟩
  exact Nat.lt_irrefl _ (descends m hcycle).2

end Registered

/-! ### A library, a ticket and a category -/

def idField : FieldMeta := { name := "id", columnName := "id", kind := .bigInt, primaryKey := true, auto := true }

def authorMeta : ModelMeta := { structName := "Author", appLabel := "library", tableName := "library_author",
                                fields := [idField, { name := "name", columnName := "name", kind := .text }] }

def bookMeta : ModelMeta := { structName := "Book", appLabel := "library", tableName := "library_book",
                              fields := [idField, { name := "title", columnName := "title", kind := .text }]
                              relations := [⟨"author", .foreignKey, "Author", .cascade, none⟩]
                              indexes := [⟨"idx_book_title", ["title"]⟩] }

/-- A ticket whose state is one of two choices. -/
def ticketMeta : ModelMeta := { structName := "Ticket", appLabel := "desk", tableName := "desk_ticket",
                                fields := [idField, { name := "state", columnName := "state", kind := .text,
                                                      choices := [("open", "Open"), ("closed", "Closed")] }] }

/-- A category with a parent category. -/
def categoryMeta : ModelMeta := { structName := "Category", appLabel := "shop", tableName := "shop_category",
                                  fields := [idField]
                                  relations := [⟨"parent", .foreignKey, "Category", .setNull, none⟩] }

def findModel (models : List ModelMeta) (name : String) : ModelMeta :=
  (models.find? (·.structName == name)).getD authorMeta

def library : Registry where
  models := [bookMeta, authorMeta]
  target := findModel [bookMeta, authorMeta]
  structs := by decide
  registered := by decide

def desk : Registry where
  models := [ticketMeta]
  target := findModel [ticketMeta]
  structs := by decide
  registered := by decide

def shop : Registry where
  models := [categoryMeta]
  target := findModel [categoryMeta]
  structs := by decide
  registered := by decide

theorem library_acyclic : Acyclic library :=
  acyclic_of_rank (fun m => m.relations.length) (by decide)

end Djangors.Migrations
