import Djangors.Orm.Server

/-! # Terminal operations

The calls that run a query set and read rows: `all`, `get`, `first`, `exists`, `count`, `aggregate`, `values` and
`values_list` (`djangors-orm/src/queryset.rs`), with the getters of a row (`djangors-db/src/row.rs`). -/

namespace Djangors.Db
open Orm

/-! ### Rows -/

/-- What sqlx decodes a column as, for each type of `try_get::<Option<T>>`. -/
structure TryGet where
  i64 : Cell → Except OrmError (Option Int)
  i32 : Cell → Except OrmError (Option Int)
  i16 : Cell → Except OrmError (Option Int)
  f64 : Cell → Except OrmError (Option F64)
  f32 : Cell → Except OrmError (Option F64)
  string : Cell → Except OrmError (Option String)
  bool : Cell → Except OrmError (Option Bool)
  dateTime : Cell → Except OrmError (Option DateTime)

/-- `first.or_else(|_| second)` -/
def orElse {α : Type} (first second : Except OrmError α) : Except OrmError α :=
  match first with
  | .ok v => .ok v
  | .error _ => second

namespace TryGet
variable (G : TryGet)

/-- `DbRow::try_i64` -/
def tryI64 (c : Cell) : Except OrmError (Option Int) := orElse (orElse (G.i64 c) (G.i32 c)) (G.i16 c)

/-- `DbRow::try_f64` -/
def tryF64 (c : Cell) : Except OrmError (Option F64) := orElse (G.f64 c) (G.f32 c)

end TryGet

/-- An `Option<T>` is `None` for NULL alone, and a `BIGINT` is read as an `i64`. -/
structure LawfulGet (G : TryGet) : Prop where
  i64 : ∀ n, G.i64 (.i64 n) = .ok (some n)
  i64_null : ∀ c, G.tryI64 c = .ok none ↔ c = .null
  f64_null : ∀ c, G.tryF64 c = .ok none ↔ c = .null
  string_null : ∀ c, G.string c = .ok none ↔ c = .null
  bool_null : ∀ c, G.bool c = .ok none ↔ c = .null
  dateTime_null : ∀ c, G.dateTime c = .ok none ↔ c = .null

end Djangors.Db

namespace Djangors.Orm
open Db Sql

/-! ### Values of a row -/

/-- `result.ok().flatten().map(f).unwrap_or(Value::Null)` -/
def valueOr {α : Type} (f : α → Value) : Except OrmError (Option α) → Value
  | .ok (some v) => f v
  | _ => .null

/-- `field_kind_of` -/
def fieldKindOf (name : String) (m : ModelMeta) : Option FieldKind := (m.field? name).map (·.kind)

/-- `decode_value` -/
def decodeValue (G : TryGet) (c : Cell) (kind : Option FieldKind) : Value :=
  match kind with
  | some .char | some .text | some .email | some .url | some .slug | some .ip | some .fileField => valueOr .text (G.string c)
  | some .float => valueOr .f64 (G.tryF64 c)
  | some .boolean => valueOr .bool (G.bool c)
  | some .dateTime => valueOr .dateTime (G.dateTime c)
  | _ => valueOr .i64 (G.tryI64 c)

/-- `QuerySet::check_field` -/
def checkField (m : ModelMeta) (field : String) : Except OrmError Unit := (checkFieldMeta m field).map fun _ => ()

/-- The column that `values` selects for a field. -/
def valuesColumn (m : ModelMeta) (field : String) : String :=
  match m.field? field with
  | some f => f.columnName
  | none => field

/-- The entries that `values` makes of a row. -/
def valuesRow (G : TryGet) (m : ModelMeta) (fields : List String) (r : Row Cell) : List (String × Value) :=
  fields.map fun f => (f, decodeValue G ((r.lookup (valuesColumn m f)).getD .null) (fieldKindOf f m))

def selectList (m : ModelMeta) (fields : List String) : String :=
  ", ".intercalate (fields.map fun f => "\"" ++ valuesColumn m f ++ "\"")

/-! ### Aggregates -/

inductive AggExpr where
  | count (field : String)
  | sum (field : String)
  | avg (field : String)
  | min (field : String)
  | max (field : String)
deriving DecidableEq, Repr

def AggExpr.field : AggExpr → String
  | count field | sum field | avg field | min field | max field => field

inductive AggResult where
  | i64 (v : Int)
  | f64 (v : F64)
  | null
deriving DecidableEq, Repr

def AggExpr.text [Fmt] (m : ModelMeta) (d : Dialect) (agg : AggExpr) : String :=
  let col := colText (fieldToCol m agg.field)
  let castFloat (expr : String) := match d with
    | .postgres => expr ++ "::float8"
    | .sqlite => "CAST(" ++ expr ++ " AS REAL)"
  match agg with
  | .count field => if field = "*" then "COUNT(*)" else "COUNT(" ++ col ++ ")"
  | .sum _ => castFloat ("SUM(" ++ col ++ ")")
  | .avg _ => castFloat ("AVG(" ++ col ++ ")")
  | .min _ => castFloat ("MIN(" ++ col ++ ")")
  | .max _ => castFloat ("MAX(" ++ col ++ ")")

/-- What the server computes of the rows for an aggregate other than `COUNT`. -/
abbrev Aggregates := AggExpr → List (Row Cell) → Cell

def AggExpr.cell (A : Aggregates) (m : ModelMeta) (rows : List (Row Cell)) (agg : AggExpr) : Cell :=
  match agg with
  | .count field =>
    if field = "*" then .i64 rows.length
    else .i64 (rows.countP fun r => (r.lookup (fieldToCol m field).name).getD .null != .null)
  | agg => A agg rows

/-- How `aggregate` reads the column of an aggregate. -/
def AggExpr.read (G : TryGet) (agg : AggExpr) (c : Cell) : Except OrmError AggResult :=
  match agg with
  | .count _ => do return .i64 ((← G.tryI64 c).getD 0)
  | _ => do
    match ← G.tryF64 c with
    | some v => return .f64 v
    | none => return .null

/-! ### Statements -/

namespace Server
variable (S : Server) (db : Tables Cell)

/-- A `SELECT` of aggregates has one row, to which `LIMIT` and `OFFSET` apply as to any other. -/
def fetchAggregates (s : Select) (cells : List (Row Cell) → List Cell) : Except OrmError (List (List Cell)) :=
  match s.bound with
  | .dangling _ => .error syntaxError
  | w => do
    let row : Row Cell := (cells ((db s.table).filter (S.selects db s.table w))).map fun c => ("", c)
    let rows ← S.limited s.limit ([row].drop (s.offset.getD 0).toNat)
    return rows.map fun row => row.map (·.2)

def rowNotFound : OrmError := .query "no rows returned by a query that expected to return at least one row"

/-- `fetch_one` -/
def fetchOne {ρ : Type} : List ρ → Except OrmError ρ
  | [] => .error rowNotFound
  | row :: _ => .ok row

end Server

namespace QuerySet
variable [Fmt] {m : ModelMeta} {ι : Type} (S : Server) (db : Tables Cell) (inTransaction : Bool) (G : TryGet)
  (fromRow : Row Cell → Except OrmError ι) (qs : QuerySet m)

def all : Except OrmError (List ι) := do
  qs.checkForUpdate S.dialect inTransaction
  let rows ← S.fetch db (qs.select S.dialect)
  rows.mapM fromRow

def get : Except OrmError ι := do
  let cloned : QuerySet m := { qs with limit := some 2 }
  match ← cloned.all S db inTransaction fromRow with
  | [] => .error (.notFound m.structName)
  | [item] => return item
  | _ => .error (.multipleObjectsReturned m.structName)

def first : Except OrmError (Option ι) := do
  let cloned : QuerySet m := { qs with limit := some 1 }
  return (← cloned.all S db inTransaction fromRow).head?

def exists_ : Except OrmError Bool := do
  qs.checkForUpdate S.dialect inTransaction
  let cloned : QuerySet m := { qs with limit := some 1 }
  let rows ← S.fetch db (cloned.compileSelectWithOrder "1" false S.dialect)
  return rows ≠ []

def notWithAggregates : OrmError := .invalidQuery "FOR UPDATE cannot be used with aggregate queries"

def count : Except OrmError Int := do
  if qs.forUpdate.isSome then .error notWithAggregates
  else
    let rows ← S.fetchAggregates db (qs.compileSelectWithOrder "COUNT(*)" false S.dialect) fun rows => [.i64 rows.length]
    let row ← Server.fetchOne rows
    return (← G.tryI64 (row.head?.getD .null)).getD 0

def aggregate (A : Aggregates) (aggs : List AggExpr) : Except OrmError (List AggResult) := do
  if qs.forUpdate.isSome then .error notWithAggregates
  else
    aggs.forM fun agg => if agg.field = "*" then return () else checkField m agg.field
    let cleanQs : QuerySet m := { qs with limit := none, offset := none }
    let selectList := ", ".intercalate (aggs.map (AggExpr.text m S.dialect))
    let rows ← S.fetchAggregates db (cleanQs.compileSelectWithOrder selectList false S.dialect) fun rows =>
      aggs.map (AggExpr.cell A m rows)
    let row ← Server.fetchOne rows
    (aggs.zip row).mapM fun (agg, c) => agg.read G c

def values (fields : List String) : Except OrmError (List (List (String × Value))) := do
  qs.checkForUpdate S.dialect inTransaction
  if fields = [] then .error (.invalidQuery "values requires at least one field")
  else
    fields.forM (checkField m)
    let rows ← S.fetch db (qs.compileSelectWithOrder (selectList m fields) true S.dialect)
    return rows.map (valuesRow G m fields)

def valuesList (field : String) : Except OrmError (List Value) := do
  let rows ← qs.values S db inTransaction G [field]
  return rows.filterMap fun r => r.getLast?.map (·.2)

end QuerySet
end Djangors.Orm
