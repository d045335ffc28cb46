import Mathlib.Data.List.Dedup
import Djangors.Lib.Keyed
import Djangors.Orm.Terminal
import Djangors.Migrations.Plan
import Djangors.Orm.Server

/-! # Batch loading

`QuerySet::select_related` and `prefetch_related` (`djangors-orm/src/queryset.rs`): one query for the related rows, and
a join in memory. -/

namespace Djangors.Orm
open Db Sql

/-- The code of a model: `FromRow::from_row` and `Model::field_values`. -/
structure ModelCode (ι : Type) where
  fromRow : Row Cell → Except OrmError ι
  fieldValues : ι → List (String × Value)

/-- The order in which iterating over a `HashSet` yields what is in it, which is not specified. -/
structure SetOrder where
  arrange : List Int → List Int
  arrange_perm : ∀ ids, (arrange ids).Perm ids

/-- The column that `select_related` adds to a row. -/
def fkAlias : String := "__select_related_fk"

/-- `row.try_i64_by_name(column)` -/
def tryI64ByName (G : TryGet) (row : Row Cell) (column : String) : Except OrmError (Option Int) :=
  match row.lookup column with
  | none => .error (.query ("no column found for name: " ++ column))
  | some c => G.tryI64 c

/-- `SELECT * FROM … WHERE column IN (…)` -/
def inSelect (m : ModelMeta) (column : String) (ids : List Int) : Select where
  selectList := "*"
  table := m.tableName
  where_ := .cond (.inList (.column column) (List.range' 1 ids.length))
  order := []
  limit := none
  offset := none
  forUpdate := none
  params := ids.map .i64

section Loading
variable {ι κ : Type} (S : Server) (db : Tables Cell) (G : TryGet) (target : String → ModelMeta)

/-- A row with the value of the foreign key beside its columns. A statement that names a column the table does not have
    is refused. -/
def aliased (relationField : String) (row : Row Cell) : Except OrmError (Row Cell) :=
  match row.lookup relationField with
  | some fk => .ok ((fkAlias, fk) :: row)
  | none => .error (.query "column does not exist")

/-- `QuerySet::select_related` -/
def QuerySet.selectRelated [Fmt] {m : ModelMeta} (order : SetOrder) (inTransaction : Bool) (fromRow : Row Cell → Except OrmError ι)
    (related : ModelMeta) (fromRelated : Row Cell → Except OrmError κ) (qs : QuerySet m) (relationField : String) :
    Except OrmError (List (ι × Option κ)) := do
  qs.checkForUpdate S.dialect inTransaction
  match m.relation? relationField with
  | none => .error (.fieldNotFound relationField m.structName)
  | some relation =>
    let targetMeta := target relation.target
    if targetMeta.structName != related.structName then
      .error (.fieldNotFound (relationField ++ " (target model mismatch: expected " ++ related.structName ++ ", found " ++
        targetMeta.structName ++ ")") m.structName)
    else
      let selectList := "*, \"" ++ relationField ++ "\" AS " ++ fkAlias
      let rows ← S.fetch db (qs.compileSelectWithOrder selectList true S.dialect)
      let rows ← rows.mapM (aliased relationField)
      let records ← rows.mapM fun row => do
        let t ← fromRow row
        let fkId ← tryI64ByName G row fkAlias
        return (t, fkId)
      let relationIds := order.arrange (records.filterMap (·.2)).dedup
      if relationIds = [] then return records.map fun record => (record.1, none)
      else
        match related.primaryKey? with
        | none => .error (.fieldNotFound "primary_key" related.structName)
        | some pk =>
          let relatedRows ← S.fetch db (inSelect related pk.columnName relationIds)
          let entries ← relatedRows.mapM fun row => do
            let r ← fromRelated row
            let pkVal ← tryI64ByName G row pk.columnName
            return (pkVal.getD 0, r)
          return records.map fun record => (record.1, record.2.bind (HashJoin.index entries))

/-- `Value::I64(id) => Some(id)` of a named value of an instance. -/
def i64Value (values : List (String × Value)) (name : String) : Option Int :=
  match values.lookup name with
  | some (.i64 id) => some id
  | _ => none

/-- A child with the primary key of its parent. -/
def childEntry (child : ModelMeta) (childCode : ModelCode κ) (fieldName : String) (row : Row Cell) :
    Except OrmError (Int × κ) := do
  let c ← childCode.fromRow row
  match i64Value (childCode.fieldValues c) fieldName with
  | some parentId => return (parentId, c)
  | none => .error (.fieldNotFound fieldName child.structName)

/-- `prefetch_related`: the children of each parent that has some. -/
def prefetchRelated (parent child : ModelMeta) (parentCode : ModelCode ι) (childCode : ModelCode κ) (parents : List ι)
    (relatedName : String) : Except OrmError (Int → Option (List κ)) :=
  match child.relations.find? fun r => r.relatedName == some relatedName && (target r.target).structName == parent.structName with
  | none => .error (.fieldNotFound ("reverse relation '" ++ relatedName ++ "'") child.structName)
  | some relation =>
    match parent.primaryKey? with
    | none => .error (.fieldNotFound "primary_key" parent.structName)
    | some pk =>
      let parentIds := parents.filterMap fun p => i64Value (parentCode.fieldValues p) pk.name
      if parentIds = [] then .ok fun _ => none
      else do
        let rows ← S.fetch db (inSelect child relation.fieldName parentIds)
        let entries ← rows.mapM (childEntry child childCode relation.fieldName)
        return HashJoin.group entries

end Loading

end Djangors.Orm

/-! ## Many-to-many relations

`m2m_related`, `m2m_add` and `m2m_remove` (`djangors-orm/src/queryset.rs`), and what the server does with their
statements by the columns of the join table. -/

namespace Djangors.Orm
open Db Migrations Sql

/-! ### Statements -/

def relationMissing : OrmError := .query "relation does not exist"

def columnMissing : OrmError := .query "column does not exist"

def foreignKeyFails : OrmError := .query "violates foreign key constraint"

/-- The columns of a table that has all the columns a statement names. -/
def namedColumns (schema : Ddl.Schema) (table : String) (names : List String) : Except OrmError Ddl.Columns :=
  match schema.columns? table with
  | none => .error relationMissing
  | some columns => if names.all fun name => (columns.lookup name).isSome then .ok columns else .error columnMissing

/-- A row has the value that a new row has in a unique column. -/
def conflicts (columns : Ddl.Columns) (rows : List (Row Cell)) (new : Row Cell) : Bool :=
  new.any fun (name, value) =>
    match columns.lookup name with
    | some column => (column.primaryKey || column.unique) && rows.any fun row => row.lookup name == some value
    | none => false

/-- The foreign keys of a new row lead to rows. -/
def refersToRows (columns : Ddl.Columns) (db : Tables Cell) (new : Row Cell) : Bool :=
  new.all fun (name, value) =>
    match (columns.lookup name).bind (·.references) with
    | some ref => (db ref.table).any fun row => row.lookup ref.column == some value
    | none => true

/-- `INSERT INTO … ON CONFLICT DO NOTHING` -/
def insertOrIgnore (schema : Ddl.Schema) (db : Tables Cell) (table : String) (new : Row Cell) :
    Except OrmError (Tables Cell) := do
  let columns ← namedColumns schema table (new.map (·.1))
  if conflicts columns (db table) new then return db
  else if refersToRows columns db new then return Function.update db table (db table ++ [new])
  else .error foreignKeyFails

/-! ### Calls -/

/-- The join table of a many-to-many field, with its columns. -/
structure Through where
  table : String
  sourceCol : String
  targetCol : String
deriving DecidableEq, Repr

section Calls
variable [CaseMap] (schema : Ddl.Schema) (db : Tables Cell) (target : String → ModelMeta) (source related : ModelMeta)
  (fieldName : String)

/-- The names that the three calls begin with, for `S` and `R` with the metadata `source` and `related`. -/
def through : Except OrmError Through :=
  match source.relations.find? fun r => r.fieldName == fieldName && r.kind == .manyToMany with
  | none => .error (.fieldNotFound ("M2M field '" ++ fieldName ++ "'") source.structName)
  | some relation =>
    let targetMeta := target relation.target
    if targetMeta.structName != related.structName then
      .error (.fieldNotFound (fieldName ++ " (target model mismatch: expected " ++ related.structName ++ ", found " ++
        targetMeta.structName ++ ")") source.structName)
    else
      .ok ⟨m2mThroughTable source relation, CaseMap.toLowercase source.structName ++ "_id",
        CaseMap.toLowercase targetMeta.structName ++ "_id"⟩

/-- `m2m_add` -/
def m2mAdd (sourcePk relatedPk : Int) : Except OrmError (Tables Cell) := do
  let t ← through target source related fieldName
  insertOrIgnore schema db t.table [(t.sourceCol, .i64 sourcePk), (t.targetCol, .i64 relatedPk)]

/-- `m2m_remove` -/
def m2mRemove (sourcePk relatedPk : Int) : Except OrmError (Tables Cell) := do
  let t ← through target source related fieldName
  let _ ← namedColumns schema t.table [t.sourceCol, t.targetCol]
  return Function.update db t.table ((db t.table).filter fun link =>
    !(link.lookup t.sourceCol == some (.i64 sourcePk) && link.lookup t.targetCol == some (.i64 relatedPk)))

/-- The rows of the inner join of `m2m_related`: a row of the related model once for each link to it. -/
def joinedRows (t : Through) (pkColumn : String) (sourcePk : Int) : List (Row Cell) :=
  (db related.tableName).flatMap fun row =>
    ((db t.table).filter fun link =>
      link.lookup t.targetCol == row.lookup pkColumn && link.lookup t.sourceCol == some (.i64 sourcePk)).map fun _ => row

/-- `m2m_related` -/
def m2mRelated {ι : Type} (S : Server) (fromRow : Row Cell → Except OrmError ι) (sourcePk : Int) :
    Except OrmError (List ι) := do
  let t ← through target source related fieldName
  match related.primaryKey? with
  | none => .error (.fieldNotFound "primary_key" related.structName)
  | some pk =>
    let _ ← namedColumns schema related.tableName [pk.columnName]
    let _ ← namedColumns schema t.table [t.targetCol, t.sourceCol]
    (S.arrange [] (joinedRows db related t pk.columnName sourcePk)).mapM fromRow

end Calls

end Djangors.Orm
