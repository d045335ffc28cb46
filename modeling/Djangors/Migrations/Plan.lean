import Djangors.Lib.Dfs
import Djangors.Migrations.Operation

/-! # Plans

`djangors-migrations/src/plan.rs`: the plan for the registered models, the plan for model snapshots, and
the changes between two lists of snapshots. -/

namespace Djangors.Migrations
open Db Orm

/-- `str::to_lowercase`, which follows the tables of Unicode. -/
class CaseMap where
  toLowercase : String → String

/-- The lower case of ASCII. -/
@[reducible] def CaseMap.ascii : CaseMap := ⟨fun s => String.ofList (s.toList.map Char.toLower)⟩

/-- `ON DELETE` -/
def onDeleteSql : OnDelete → String
  | .cascade => "CASCADE"
  | .protect | .restrict => "RESTRICT"
  | .setNull => "SET NULL"
  | .doNothing => "NO ACTION"

/-! ### The registered models -/

/-- `models_by_struct` -/
def byStruct (models : List ModelMeta) (name : String) : Option ModelMeta :=
  models.reverse.find? (·.structName == name)

/-- The models that `dfs` enters from a model. -/
def dependencies (inv : Inventory) (m : ModelMeta) : List ModelMeta :=
  m.relations.filterMap fun r => byStruct inv.models (inv.target r.target).structName

/-- The topological sort by `dfs`. -/
def orderedModels (inv : Inventory) : Except MigrationError (List ModelMeta) :=
  match Dfs.searchAll (·.structName) (dependencies inv) (inv.models.length + 1) inv.models ⟨[], [], []⟩ with
  | .ok g => .ok g.order
  | .error visiting => .error (.cyclicDependency (visiting.mergeSort (· ≤ ·)))

/-- `build_check_constraints` -/
def buildCheckConstraints (m : ModelMeta) : List String :=
  (m.fields.filter fun f => !f.choices.isEmpty).map fun f =>
    let choiceVals := f.choices.map fun (v, _) =>
      "'" ++ String.ofList (v.toList.flatMap fun c => if c = '\'' then ['\'', '\''] else [c]) ++ "'"
    "CONSTRAINT chk_" ++ m.tableName ++ "_" ++ f.columnName ++ " CHECK (\"" ++ f.columnName ++ "\" IN (" ++
      ", ".intercalate choiceVals ++ "))"

def fieldColumn (d : Dialect) (f : FieldMeta) : Except MigrationError ColumnDef := do
  let sqlType ← fieldMetaToSqlType f d
  return { name := f.columnName, sqlType, nullable := f.nullable, primaryKey := f.primaryKey, unique := f.unique,
           defaultSql := none, references := none }

/-- The column of a foreign key or one-to-one relation. -/
def relationColumn (inv : Inventory) (d : Dialect) (r : RelationMeta) : Except MigrationError ColumnDef := do
  let targetMeta := inv.target r.target
  match targetMeta.primaryKey? with
  | none => .error (.database ("Target model " ++ targetMeta.structName ++ " has no primary key field"))
  | some targetPk =>
    let sqlType ← fieldMetaToSqlType { targetPk with auto := false } d
    return { name := r.fieldName, sqlType, nullable := r.onDelete == .setNull, primaryKey := false,
             unique := r.kind == .oneToOne, defaultSql := none,
             references := some ⟨targetMeta.tableName, targetPk.columnName, onDeleteSql r.onDelete⟩ }

/-- A column of a join table. -/
def joinColumn (name sqlType table column : String) : ColumnDef :=
  { name, sqlType, nullable := false, primaryKey := false, unique := false, defaultSql := none,
    references := some ⟨table, column, "CASCADE"⟩ }

/-- The join table of a many-to-many relation. -/
def joinTable [CaseMap] (inv : Inventory) (d : Dialect) (m : ModelMeta) (r : RelationMeta) :
    Except MigrationError Operation := do
  let targetMeta := inv.target r.target
  match m.primaryKey? with
  | none => .error (.database "M2M source model has no primary key")
  | some sourcePk =>
    match targetMeta.primaryKey? with
    | none => .error (.database "M2M target model has no primary key")
    | some targetPk =>
      let sourceType ← fieldMetaToSqlType sourcePk d
      let targetType ← fieldMetaToSqlType targetPk d
      return .createTable (m2mThroughTable m r)
        [joinColumn (CaseMap.toLowercase m.structName ++ "_id") sourceType m.tableName sourcePk.columnName,
          joinColumn (CaseMap.toLowercase targetMeta.structName ++ "_id") targetType targetMeta.tableName
            targetPk.columnName] []

def indexOperations (m : ModelMeta) : List Operation :=
  (m.indexes.filter fun i => !i.fields.isEmpty).map fun i => .createIndex i.name m.tableName i.fields

def modelOperations [CaseMap] (inv : Inventory) (d : Dialect) (m : ModelMeta) :
    Except MigrationError (List Operation) := do
  let fields ← m.fields.mapM (fieldColumn d)
  let relations ← (m.relations.filter (·.kind != .manyToMany)).mapM (relationColumn inv d)
  let joins ← (m.relations.filter (·.kind == .manyToMany)).mapM (joinTable inv d m)
  return .createTable m.tableName (fields ++ relations) (buildCheckConstraints m) :: indexOperations m ++ joins

/-- `build_create_all_plan` -/
def buildCreateAllPlan [CaseMap] (inv : Inventory) (d : Dialect) : Except MigrationError (List Operation) := do
  let ordered ← orderedModels inv
  let operations ← ordered.mapM (modelOperations inv d)
  return operations.flatten

/-! ### Snapshots -/

namespace Snapshot

/-- The map `by_name`: a later snapshot takes the place of an earlier one of the same name. -/
def byName (snapshots : List ModelSnapshot) (name : String) : Option ModelSnapshot :=
  snapshots.reverse.find? (·.structName == name)

/-- The snapshots that `visit` enters from a snapshot. -/
def targets (byName : String → Option ModelSnapshot) (m : ModelSnapshot) : List ModelSnapshot :=
  m.relations.filterMap fun r => byName r.targetStruct

/-- The order in which `visit` lists the snapshots. -/
def ordered (snapshots : List ModelSnapshot) : List ModelSnapshot :=
  (Dfs.visitAll (·.structName) (targets (byName snapshots)) (snapshots.length + 1) snapshots ⟨[], []⟩).order

def fieldColumn (d : Dialect) (f : FieldSnapshot) : Except MigrationError ColumnDef := do
  let sqlType ← sqlTypeFor f.kind f.maxLength f.auto f.name d
  return { name := f.columnName, sqlType, nullable := f.nullable, primaryKey := f.primaryKey, unique := f.unique,
           defaultSql := none, references := none }

/-- The column of a foreign key or one-to-one relation. -/
def relationColumn (byName : String → Option ModelSnapshot) (d : Dialect) (r : RelationSnapshot) :
    Except MigrationError ColumnDef :=
  match byName r.targetStruct with
  | none => .error (.database ("unknown relation target " ++ r.targetStruct))
  | some target =>
    match target.primaryKey? with
    | none => .error (.database "relation target has no primary key")
    | some pk => do
      let sqlType ← sqlTypeFor pk.kind pk.maxLength false pk.name d
      return { name := r.fieldName, sqlType, nullable := r.onDelete == .setNull, primaryKey := false,
               unique := r.kind == .oneToOne, defaultSql := none,
               references := some ⟨target.tableName, pk.columnName, onDeleteSql r.onDelete⟩ }

/-- The join table of a many-to-many relation. -/
def joinTable [CaseMap] (byName : String → Option ModelSnapshot) (d : Dialect) (m : ModelSnapshot)
    (r : RelationSnapshot) : Except MigrationError Operation :=
  match byName r.targetStruct with
  | none => .error (.database ("unknown M2M target " ++ r.targetStruct))
  | some target =>
    match m.primaryKey? with
    | none => .error (.database "M2M source snapshot has no primary key")
    | some sourcePk =>
      match target.primaryKey? with
      | none => .error (.database "M2M target snapshot has no primary key")
      | some targetPk => do
        let sourceType ← sqlTypeFor sourcePk.kind sourcePk.maxLength false sourcePk.name d
        let targetType ← sqlTypeFor targetPk.kind targetPk.maxLength false targetPk.name d
        return .createTable (m.tableName ++ "_" ++ r.fieldName)
          [joinColumn (CaseMap.toLowercase m.structName ++ "_id") sourceType m.tableName sourcePk.columnName,
            joinColumn (CaseMap.toLowercase target.structName ++ "_id") targetType target.tableName targetPk.columnName]
          []

def indexOperations (m : ModelSnapshot) : List Operation :=
  (m.indexes.filter fun i => !i.fields.isEmpty).map fun i => .createIndex i.name m.tableName i.fields

def modelOperations [CaseMap] (byName : String → Option ModelSnapshot) (d : Dialect) (m : ModelSnapshot) :
    Except MigrationError (List Operation) := do
  let fields ← m.fields.mapM (fieldColumn d)
  let relations ← (m.relations.filter (·.kind != .manyToMany)).mapM (relationColumn byName d)
  let joins ← (m.relations.filter (·.kind == .manyToMany)).mapM (joinTable byName d m)
  return .createTable m.tableName (fields ++ relations) [] :: indexOperations m ++ joins

end Snapshot

/-- `build_create_plan_from_snapshots` -/
def buildCreatePlanFromSnapshots [CaseMap] (snapshots : List ModelSnapshot) (d : Dialect) :
    Except MigrationError (List Operation) := do
  let operations ← (Snapshot.ordered snapshots).mapM (Snapshot.modelOperations (Snapshot.byName snapshots) d)
  return operations.flatten

/-! ### Changes -/

/-- The order in which iterating over a `HashMap` yields the snapshots in it, which is not specified. -/
structure MapOrder where
  arrange : List ModelSnapshot → List ModelSnapshot
  arrange_perm : ∀ snapshots, (arrange snapshots).Perm snapshots

/-- `collect` into a `HashMap` by the name of the struct. -/
def collect (snapshots : List ModelSnapshot) : List ModelSnapshot :=
  snapshots.foldl (fun map s => map.filter (·.structName != s.structName) ++ [s]) []

/-- The operations for one field of a table that there was before. -/
def fieldChanges (prevSnap : ModelSnapshot) (tableName : String) (d : Dialect) (cf : FieldSnapshot) :
    Except MigrationError (List Operation) :=
  match prevSnap.fields.find? (·.name == cf.name) with
  | some pf =>
    if cf.kind != pf.kind || cf.maxLength != pf.maxLength then do
      let sqlType ← sqlTypeFor cf.kind cf.maxLength cf.auto cf.name d
      return [.alterColumnType tableName cf.columnName sqlType]
    else .ok []
  | none => do
    let column ← Snapshot.fieldColumn d cf
    return [.addColumn tableName column]

/-- The operations for one table. -/
def modelChanges (prev : Option ModelSnapshot) (snap : ModelSnapshot) (d : Dialect) :
    Except MigrationError (List Operation) :=
  match prev with
  | some prevSnap => do
    let dropped := prevSnap.fields.filter fun pf => !snap.fields.any (·.name == pf.name)
    let changes ← snap.fields.mapM (fieldChanges prevSnap snap.tableName d)
    return dropped.map (fun df => .dropColumn snap.tableName df.columnName) ++ changes.flatten
  | none => do
    let columns ← snap.fields.mapM (Snapshot.fieldColumn d)
    return [.createTable snap.tableName columns []]

/-- `detect_changes` -/
def detectChanges (order : MapOrder) (previous current : List ModelSnapshot) (d : Dialect) :
    Except MigrationError (List Operation) := do
  let changes ← (order.arrange (collect current)).mapM fun snap =>
    modelChanges (Snapshot.byName previous snap.structName) snap d
  return changes.flatten

end Djangors.Migrations
