import Djangors.Lib.DdlRuns
import Djangors.Migrations.Make
import Djangors.Theorems.ColumnTypes

/-! # The plan for snapshots

What the plan for a list of snapshots consists of: for each model a table, its indexes and its join
tables, all of them created under names that the models give. -/

namespace Djangors.Migrations
open Db Orm Ddl

/-- The names of a model's table, indexes and join tables. -/
def relationNames (m : ModelSnapshot) : List String :=
  m.tableName :: ((m.indexes.filter fun i => !i.fields.isEmpty).map (·.name) ++
    (m.relations.filter (·.kind == .manyToMany)).map fun r => m.tableName ++ "_" ++ r.fieldName)

section ByName
variable {S : List ModelSnapshot}

theorem byName_mem {name : String} {m : ModelSnapshot} (h : Snapshot.byName S name = some m) :
    m ∈ S ∧ m.structName = name := by
  unfold Snapshot.byName at h
  exact ⟨List.mem_reverse.mp (List.mem_of_find?_eq_some h), by simpa using List.find?_some h⟩

/-- A snapshot is found under its name. -/
theorem byName_self (structs : (S.map (·.structName)).Nodup) {m : ModelSnapshot} (hm : m ∈ S) :
    Snapshot.byName S m.structName = some m := by
  unfold Snapshot.byName
  cases h : S.reverse.find? (·.structName == m.structName) with
  | none => exact absurd (beq_self_eq_true _) (List.find?_eq_none.mp h m (List.mem_reverse.mpr hm))
  | some m' =>
    obtain ⟨hm', heq⟩ := byName_mem h
    rw [List.inj_on_of_nodup_map structs hm' hm heq]

theorem targets_closed : Dfs.Closed (Snapshot.targets (Snapshot.byName S)) S := by
  intro m _ t ht
  obtain ⟨r, _, hr⟩ := List.mem_filterMap.mp ht
  exact (byName_mem hr).1

/-- Every snapshot is visited once. -/
theorem ordered_perm (structs : (S.map (·.structName)).Nodup) : (Snapshot.ordered S).Perm S :=
  Dfs.visitAll_perm targets_closed structs S.length

end ByName

/-! ### The operations of a model -/

section Model
variable {d : Dialect} {byName : String → Option ModelSnapshot} {m : ModelSnapshot} {ops : List Operation}

theorem snapshotOperations_ok [CaseMap] (h : Snapshot.modelOperations byName d m = .ok ops) :
    ∃ fields relations joins, m.fields.mapM (Snapshot.fieldColumn d) = .ok fields ∧
      (m.relations.filter (·.kind != .manyToMany)).mapM (Snapshot.relationColumn byName d) = .ok relations ∧
      (m.relations.filter (·.kind == .manyToMany)).mapM (Snapshot.joinTable byName d m) = .ok joins ∧
      ops = .createTable m.tableName (fields ++ relations) [] :: Snapshot.indexOperations m ++ joins := by
  obtain ⟨fields, hfields, h⟩ := Except.bind_eq_ok.mp h
  obtain ⟨relations, hrelations, h⟩ := Except.bind_eq_ok.mp h
  obtain ⟨joins, hjoins, h⟩ := Except.bind_eq_ok.mp h
  cases h
  exact ⟨fields, relations, joins, hfields, hrelations, hjoins, rfl⟩

theorem snapshotField_ok {f : FieldSnapshot} {c : ColumnDef} (h : Snapshot.fieldColumn d f = .ok c) :
    ∃ sqlType, sqlTypeFor f.kind f.maxLength f.auto f.name d = .ok sqlType ∧
      c = { name := f.columnName, sqlType, nullable := f.nullable, primaryKey := f.primaryKey, unique := f.unique,
            defaultSql := none, references := none } := by
  obtain ⟨sqlType, hsql, h⟩ := Except.bind_eq_ok.mp h
  cases h
  exact ⟨sqlType, hsql, rfl⟩

/-- The column of a relation refers to the primary key of its target. -/
theorem snapshotRelation_ok {r : RelationSnapshot} {c : ColumnDef}
    (h : Snapshot.relationColumn byName d r = .ok c) :
    ∃ target pk sqlType, byName r.targetStruct = some target ∧ target.primaryKey? = some pk ∧
      sqlTypeFor pk.kind pk.maxLength false pk.name d = .ok sqlType ∧
      c = { name := r.fieldName, sqlType, nullable := r.onDelete == .setNull, primaryKey := false,
            unique := r.kind == .oneToOne, defaultSql := none,
            references := some ⟨target.tableName, pk.columnName, onDeleteSql r.onDelete⟩ } := by
  unfold Snapshot.relationColumn at h
  split at h
  · cases h
  · rename_i target htarget
    split at h
    · cases h
    · rename_i pk hpk
      obtain ⟨sqlType, hsql, h⟩ := Except.bind_eq_ok.mp h
      cases h
      exact ⟨target, pk, sqlType, htarget, hpk, hsql, rfl⟩

/-- A join table refers to the tables of its model and of the target. -/
theorem snapshotJoin_ok [CaseMap] {r : RelationSnapshot} {op : Operation} (h : Snapshot.joinTable byName d m r = .ok op) :
    ∃ target sourcePk targetPk sourceType targetType, byName r.targetStruct = some target ∧
      m.primaryKey? = some sourcePk ∧ target.primaryKey? = some targetPk ∧
      sqlTypeFor sourcePk.kind sourcePk.maxLength false sourcePk.name d = .ok sourceType ∧
      sqlTypeFor targetPk.kind targetPk.maxLength false targetPk.name d = .ok targetType ∧
      op = .createTable (m.tableName ++ "_" ++ r.fieldName)
        [joinColumn (CaseMap.toLowercase m.structName ++ "_id") sourceType m.tableName sourcePk.columnName,
          joinColumn (CaseMap.toLowercase target.structName ++ "_id") targetType target.tableName targetPk.columnName]
        [] := by
  unfold Snapshot.joinTable at h
  split at h
  · cases h
  · rename_i target htarget
    split at h
    · cases h
    · rename_i sourcePk hsource
      split at h
      · cases h
      · rename_i targetPk htargetPk
        obtain ⟨sourceType, hs, h⟩ := Except.bind_eq_ok.mp h
        obtain ⟨targetType, ht, h⟩ := Except.bind_eq_ok.mp h
        cases h
        exact ⟨target, sourcePk, targetPk, sourceType, targetType, htarget, hsource, htargetPk, hs, ht, rfl⟩

/-- The names under which a list of operations creates relations. -/
def createdNames (ops : List Operation) : List String := (created (ops.map (·.statement))).keys

theorem createdNames_append (ops ops' : List Operation) :
    createdNames (ops ++ ops') = createdNames ops ++ createdNames ops' := by
  simp [createdNames, created, List.keys]

theorem creating_joins [CaseMap] {rs : List RelationSnapshot} {joins : List Operation}
    (h : rs.mapM (Snapshot.joinTable byName d m) = .ok joins) :
    (∀ op ∈ joins, ∃ e, op.statement.creates = some e) ∧
      createdNames joins = rs.map fun r => m.tableName ++ "_" ++ r.fieldName := by
  induction Except.mapM_eq_ok.mp h with
  | nil => exact ⟨by simp, rfl⟩
  | cons hop hrest ih =>
    obtain ⟨hcreates, hnames⟩ := ih (Except.mapM_eq_ok.mpr hrest)
    obtain ⟨_, _, _, _, _, _, _, _, _, _, rfl⟩ := snapshotJoin_ok hop
    refine ⟨fun op hop => ?_, ?_⟩
    · rcases List.mem_cons.mp hop with rfl | hop
      · exact ⟨_, rfl⟩
      · exact hcreates op hop
    · rw [List.map_cons, ← hnames]
      rfl

/-- A model's operations create what its names say. -/
theorem creating_modelOperations [CaseMap] (h : Snapshot.modelOperations byName d m = .ok ops) :
    (∀ op ∈ ops, ∃ e, op.statement.creates = some e) ∧ createdNames ops = relationNames m := by
  obtain ⟨fields, relations, joins, _, _, hjoins, rfl⟩ := snapshotOperations_ok h
  have joined := creating_joins hjoins
  have indexed : createdNames (Snapshot.indexOperations m) =
      (m.indexes.filter fun i => !i.fields.isEmpty).map (·.name) := by
    simp [createdNames, created, Snapshot.indexOperations, List.keys, Operation.statement, Statement.creates,
      Function.comp_def]
  constructor
  · intro op hop
    rcases List.mem_append.mp hop with hop | hop
    · rcases List.mem_cons.mp hop with rfl | hop
      · exact ⟨_, rfl⟩
      · obtain ⟨i, _, rfl⟩ := List.mem_map.mp hop
        exact ⟨_, rfl⟩
    · exact joined.1 op hop
  · rw [createdNames_append, joined.2, relationNames, ← List.cons_append, ← indexed]
    rfl

end Model

/-! ### The operations of a plan -/

section Plan
variable [CaseMap] {d : Dialect} {S : List ModelSnapshot} {ops : List Operation}

theorem snapshotPlan_ok (h : buildCreatePlanFromSnapshots S d = .ok ops) :
    ∃ operations, (Snapshot.ordered S).mapM (Snapshot.modelOperations (Snapshot.byName S) d) = .ok operations ∧
      ops = operations.flatten := by
  obtain ⟨operations, hoperations, h⟩ := Except.bind_eq_ok.mp h
  cases h
  exact ⟨operations, hoperations, rfl⟩

/-- Each operation of a plan is one of a model of the list. -/
theorem mem_snapshotPlan (structs : (S.map (·.structName)).Nodup) (h : buildCreatePlanFromSnapshots S d = .ok ops)
    {op : Operation} : op ∈ ops ↔
      ∃ m ∈ S, ∃ mops, Snapshot.modelOperations (Snapshot.byName S) d m = .ok mops ∧ op ∈ mops := by
  obtain ⟨operations, hoperations, rfl⟩ := snapshotPlan_ok h
  rw [List.mem_flatten]
  constructor
  · rintro ⟨mops, hmops, hop⟩
    obtain ⟨m, hm, heq⟩ := Except.exists_of_mem_mapM hoperations hmops
    exact ⟨m, (ordered_perm structs).mem_iff.mp hm, mops, heq, hop⟩
  · rintro ⟨m, hm, mops, heq, hop⟩
    obtain ⟨mops', hmops', heq'⟩ := Except.exists_mapM_of_mem hoperations ((ordered_perm structs).mem_iff.mpr hm)
    cases heq.symm.trans heq'
    exact ⟨mops, hmops', hop⟩

/-- A plan that succeeds has operations for every model. -/
theorem modelOperations_of_plan (structs : (S.map (·.structName)).Nodup)
    (h : buildCreatePlanFromSnapshots S d = .ok ops) {m : ModelSnapshot} (hm : m ∈ S) :
    ∃ mops, Snapshot.modelOperations (Snapshot.byName S) d m = .ok mops := by
  obtain ⟨operations, hoperations, _⟩ := snapshotPlan_ok h
  obtain ⟨mops, _, heq⟩ := Except.exists_mapM_of_mem hoperations ((ordered_perm structs).mem_iff.mpr hm)
  exact ⟨mops, heq⟩

theorem creating_plan (h : buildCreatePlanFromSnapshots S d = .ok ops) : Creating (ops.map (·.statement)) := by
  obtain ⟨operations, hoperations, rfl⟩ := snapshotPlan_ok h
  intro st hst
  obtain ⟨op, hop, rfl⟩ := List.mem_map.mp hst
  obtain ⟨mops, hmops, hop⟩ := List.mem_flatten.mp hop
  obtain ⟨m, _, heq⟩ := Except.exists_of_mem_mapM hoperations hmops
  exact (creating_modelOperations heq).1 op hop

theorem createdNames_flatten {byName : String → Option ModelSnapshot} {ms : List ModelSnapshot}
    {operations : List (List Operation)} (h : ms.mapM (Snapshot.modelOperations byName d) = .ok operations) :
    createdNames operations.flatten = ms.flatMap relationNames := by
  induction Except.mapM_eq_ok.mp h with
  | nil => rfl
  | cons hm hrest ih =>
    rw [List.flatten_cons, createdNames_append, (creating_modelOperations hm).2, List.flatMap_cons,
      ih (Except.mapM_eq_ok.mpr hrest)]

/-- A plan creates relations under the names that its models give. -/
theorem createdNames_plan (structs : (S.map (·.structName)).Nodup)
    (h : buildCreatePlanFromSnapshots S d = .ok ops) : (createdNames ops).Perm (S.flatMap relationNames) := by
  obtain ⟨operations, hoperations, rfl⟩ := snapshotPlan_ok h
  rw [createdNames_flatten hoperations]
  exact (ordered_perm structs).flatMap_right _

end Plan

/-! ### A step of `makemigrations` -/

section Step
variable [CaseMap] {d : Dialect} {previous current : List ModelSnapshot}

theorem planStep_ok {ops : List Operation} {texts : List (String × String)}
    (h : planStep previous current d = .ok (ops, texts)) :
    ∃ creates adds, buildCreatePlanFromSnapshots (newModels previous current) d = .ok creates ∧
      allAddColumns previous current d = .ok adds ∧ ops = creates ++ adds ∧ texts.length = ops.length := by
  unfold planStep at h
  obtain ⟨creates, hcreates, h⟩ := Except.bind_eq_ok.mp h
  obtain ⟨createTexts, hcreateTexts, h⟩ := Except.bind_eq_ok.mp h
  obtain ⟨adds, hadds, h⟩ := Except.bind_eq_ok.mp h
  obtain ⟨addTexts, haddTexts, h⟩ := Except.bind_eq_ok.mp h
  cases h
  refine ⟨creates, adds, ?_, hadds, rfl, ?_⟩
  · split at hcreates
    · rename_i hnew
      cases hcreates
      rw [List.isEmpty_iff.mp hnew]
      rfl
    · exact hcreates
  · rw [List.length_append, List.length_append, (Except.mapM_eq_ok.mp hcreateTexts).length_eq,
      (Except.mapM_eq_ok.mp haddTexts).length_eq]

theorem makemigrations_ok {file : MigrationFile} (h : makemigrations false previous current d = .ok (some file)) :
    ∃ creates adds, buildCreatePlanFromSnapshots (newModels previous current) d = .ok creates ∧
      allAddColumns previous current d = .ok adds ∧ file.up = creates ++ adds ∧
      file.down = (creates ++ adds).filterMap (·.reverse) := by
  unfold makemigrations at h
  split at h
  · cases h
  · rename_i ops texts hplan
    obtain ⟨creates, adds, hcreates, hadds, rfl, _⟩ := planStep_ok hplan
    split at h
    · cases h
    · cases h
      exact ⟨creates, adds, hcreates, hadds, rfl, rfl⟩

end Step

/-! ### An author, a book and a category -/

def idSnapshot : FieldSnapshot := { name := "id", columnName := "id", kind := .bigInt, primaryKey := true, auto := true }

def authorSnapshot : ModelSnapshot := { structName := "Author", appLabel := "library", tableName := "library_author",
                                        fields := [idSnapshot, { name := "name", columnName := "name", kind := .text }] }

def bookSnapshot : ModelSnapshot := { structName := "Book", appLabel := "library", tableName := "library_book",
                                      fields := [idSnapshot, { name := "title", columnName := "title", kind := .text }]
                                      relations := [{ fieldName := "author", kind := .foreignKey, targetStruct := "Author" }]
                                      indexes := [⟨"idx_book_title", ["title"]⟩] }

/-- A category with a parent category. -/
def categorySnapshot : ModelSnapshot := { structName := "Category", appLabel := "shop", tableName := "shop_category",
                                          fields := [idSnapshot, { name := "name", columnName := "name", kind := .text }]
                                          relations := [{ fieldName := "parent", kind := .foreignKey,
                                                          targetStruct := "Category", onDelete := .setNull }]
                                          indexes := [⟨"idx_category_name", ["name"]⟩] }

/-- A Postgres server without casts, where no `CHECK` reads a column. -/
def postgres : Rules := serverRules (fun _ _ => false) (fun _ _ => false) .postgres

end Djangors.Migrations
