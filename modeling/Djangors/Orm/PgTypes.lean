import Djangors.Orm.Server

/-! # Types of Postgres

The types of columns (`sql_type_for`, `djangors-migrations/src/type_mapping.rs`) and of bound values, and whether Postgres
has the operators of a statement between them. -/

namespace Djangors.Orm
open Db Sql

inductive PgType where
  | varchar
  | text
  | int4
  | int8
  | float8
  | numeric
  | bool
  | date
  | timestamptz
  | time
  | interval
  | uuid
  | inet
  | bytea
  | jsonb
deriving DecidableEq, Repr

/-- What a type is called in a column definition. -/
def PgType.names : PgType → List String
  | .varchar => ["VARCHAR"]
  | .text => ["TEXT"]
  | .int4 => ["INTEGER", "SERIAL"]
  | .int8 => ["BIGINT", "BIGSERIAL"]
  | .float8 => ["DOUBLE PRECISION"]
  | .numeric => ["NUMERIC"]
  | .bool => ["BOOLEAN"]
  | .date => ["DATE"]
  | .timestamptz => ["TIMESTAMPTZ"]
  | .time => ["TIME"]
  | .interval => ["INTERVAL"]
  | .uuid => ["UUID"]
  | .inet => ["INET"]
  | .bytea => ["BYTEA"]
  | .jsonb => ["JSONB"]

/-- One type for all those that Postgres compares with each other. -/
def PgType.family : PgType → PgType
  | .varchar => .text
  | .int4 | .float8 | .numeric => .int8
  | .date => .timestamptz
  | t => t

/-- `'%' || column` -/
def PgType.concatenated : PgType → PgType
  | .bytea => .bytea
  | .jsonb => .jsonb
  | _ => .text

/-- Whether Postgres has an operator between two types. It converts numbers to numbers and dates to times by itself, and
    no text to anything else. -/
def SqlOp.between (op : SqlOp) (a b : PgType) : Bool :=
  match op with
  | .like => a.family == b.family && (a.family == .text || a.family == .bytea)
  | .ilike | .regex | .iregex => a.family == .text && b.family == .text
  | _ => a.family == b.family

/-- The type of a column on Postgres. -/
def FieldKind.pgType : FieldKind → PgType
  | .char | .email | .url | .slug => .varchar
  | .text | .fileField => .text
  | .integer => .int4
  | .bigInt => .int8
  | .float => .float8
  | .decimal _ _ => .numeric
  | .boolean => .bool
  | .date => .date
  | .dateTime => .timestamptz
  | .time => .time
  | .duration => .interval
  | .uuid => .uuid
  | .ip => .inet
  | .binary => .bytea
  | .json => .jsonb

def nullType : NullKind → PgType
  | .i64 => .int8
  | .f64 => .float8
  | .text => .text
  | .bool => .bool
  | .dateTime => .timestamptz
  | .bytes => .bytea

/-- The type that a parameter is declared with. -/
def bindType : BindValue → PgType
  | .i64 _ => .int8
  | .f64 _ => .float8
  | .text _ => .text
  | .bool _ => .bool
  | .dateTime _ => .timestamptz
  | .bytes _ => .bytea
  | .null kind => nullType kind

/-- The columns of a model's table with their types, where a relation holds a key of kind `keys`. -/
def ModelMeta.columnTypes (m : ModelMeta) (keys : RelationMeta → FieldKind) : List (String × PgType) :=
  m.fields.map (fun f => (f.columnName, f.kind.pgType)) ++
    (m.relations.filter (·.kind != .manyToMany)).map fun r => (r.fieldName, (keys r).pgType)

/-- The tables that Postgres knows, and which conditions that are plain text have their types. -/
structure Catalog where
  columns : String → List (String × PgType)
  raw : String → Bool

namespace Catalog
variable (C : Catalog)

/-- The type of a column in the queries on `tables`, innermost first. -/
def columnType (tables : List String) : ColRef → Option PgType
  | .bare c => tables.findSome? fun t => (C.columns t).lookup c
  | .column c => tables.findSome? fun t => (C.columns t).lookup c
  | .qualified t c => if t ∈ tables then (C.columns t).lookup c else none

def operandType (tables : List String) : Operand (Option BindValue) → Option PgType
  | .param v => v.map bindType
  | .column c => C.columnType tables c
  | .pattern before after c =>
    (C.columnType tables c).map fun t => if before || after then t.concatenated else t

/-- An operator between what has types. -/
def compared (op : SqlOp) : Option PgType → Option PgType → Bool
  | some a, some b => op.between a b
  | _, _ => false

mutual

/-- Whether every column of a condition is there and every operator has its types. -/
def accepts : List String → Pred SqlOp (Option BindValue) → Bool
  | tables, .cmp l op r => compared op (C.columnType tables l) (C.operandType tables r)
  | tables, .inList l items =>
    (C.columnType tables l).isSome && items.all fun v => compared .eq (C.columnType tables l) (v.map bindType)
  | tables, .isNull l _ => (C.columnType tables l).isSome
  | tables, .conj ps => acceptsAll tables ps
  | tables, .disj ps => acceptsAll tables ps
  | tables, .neg p => accepts tables p
  | tables, .exists_ _ t ps => acceptsAll (t :: tables) ps
  | _, .raw t => C.raw t

def acceptsAll : List String → List (Pred SqlOp (Option BindValue)) → Bool
  | _, [] => true
  | tables, p :: ps => accepts tables p && acceptsAll tables ps

end

def acceptsWhere (table : String) : Where (Option BindValue) → Bool
  | .absent => true
  | .cond c => C.accepts [table] c
  | .dangling _ => false

/-- Whether a statement may be ordered by a text: it is the quoted name of a column. -/
def orders (table text : String) : Bool := (C.columns table).any fun c => colText (.column c.1) == text

/-- Whether Postgres runs a statement without an error about a column or a type. -/
def executes (s : Select) : Bool :=
  C.acceptsWhere s.table s.bound && s.order.all fun o => C.orders s.table o.1

variable {C}

theorem acceptsAll_iff {tables : List String} {ps : List (Pred SqlOp (Option BindValue))} :
    C.acceptsAll tables ps = true ↔ ∀ p ∈ ps, C.accepts tables p = true := by
  induction ps with
  | nil => simp [acceptsAll]
  | cons p ps ih => rw [acceptsAll, Bool.and_eq_true, ih, List.forall_mem_cons]

end Catalog
end Djangors.Orm
