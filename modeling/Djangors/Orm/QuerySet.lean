import Djangors.Orm.Resolve
import Djangors.Orm.Compile

/-! # Query sets

`QuerySet<T>` (`djangors-orm/src/queryset.rs`): the builder calls, and the statements that `all`,
`update`, `delete`, `insert_raw`, `bulk_create` and `delete_by_pk` compile. A query set is indexed by
the metadata of its model. -/

namespace Djangors.Orm
open Db Sql

/-- Options of row locking. -/
structure ForUpdate where
  nowait : Bool := false
  skipLocked : Bool := false
  of : List String := []
deriving DecidableEq, Repr

/-- Lazily constructed query for the model of `m`. An ordering entry is a column text and whether it
    descends; the cache time to live is in nanoseconds. -/
structure QuerySet (m : ModelMeta) where
  filters : List Expr := []
  orderBy : List (String × Bool) := []
  limit : Option Int := none
  offset : Option Int := none
  forUpdate : Option ForUpdate := none
  searchCondition : Option String := none
  cacheTtl : Option Nat := none

/-! ## Builder calls -/

/-- `query.replace('\'', "''")` -/
def escapeQuotes (query : String) : String :=
  String.ofList (query.toList.flatMap fun c => if c = '\'' then ['\'', '\''] else [c])

/-- `field.strip_prefix('-')`: the field and whether it stands in descending order. -/
def stripDash (field : String) : String × Bool :=
  match field.toList with
  | '-' :: rest => (String.ofList rest, true)
  | _ => (field, false)

namespace QuerySet
variable {m : ModelMeta}

def cache (qs : QuerySet m) (ttl : Nat) : QuerySet m := { qs with cacheTtl := some ttl }

def filter (qs : QuerySet m) (expr : UnresolvedExpr) : Except OrmError (QuerySet m) := do
  let resolved ← resolveExpr m expr
  return { qs with filters := qs.filters ++ [resolved] }

def exclude (qs : QuerySet m) (expr : UnresolvedExpr) : Except OrmError (QuerySet m) := do
  let resolved ← resolveExpr m expr
  return { qs with filters := qs.filters ++ [.not resolved] }

def filterOrIcontains (qs : QuerySet m) (fields : List String) (term : String) : Except OrmError (QuerySet m) := do
  let compares ← fields.mapM fun field =>
    if m.fields.any (·.name == field) then .ok (Expr.compare field .iContains (.text term))
    else .error (.fieldNotFound field m.structName)
  return { qs with filters := qs.filters ++ [.or compares] }

/-- Full-text search. The condition is kept beside the filters, and a second call replaces it. -/
def search (qs : QuerySet m) (query : String) (fields : List String) : Except OrmError (QuerySet m) :=
  let parts := fields.map fun f => "coalesce(\"" ++ f ++ "\"::text, '')"
  let condition := "to_tsvector('english', " ++ " || ' ' || ".intercalate parts ++
    ") @@ plainto_tsquery('english', '" ++ escapeQuotes query ++ "')"
  .ok { qs with searchCondition := some condition }

def filterDatetimeRange (qs : QuerySet m) (field : String) (gte lt : DateTime) : Except OrmError (QuerySet m) :=
  if m.fields.any (·.name == field) then
    .ok { qs with filters := qs.filters ++
      [.and [.compare field .gte (.dateTime gte), .compare field .lt (.dateTime lt)]] }
  else .error (.fieldNotFound field m.structName)

/-- Keyset pagination: rows strictly after a position. -/
def after (qs : QuerySet m) (orderField : String) (orderValue : Value) (pkField : String) (cursorPk : Int)
    (descending : Bool) : Except OrmError (QuerySet m) := do
  let _ ← checkFieldMeta m orderField
  let _ ← checkFieldMeta m pkField
  let op : CompareOp := if descending then .lt else .gt
  return { qs with filters := qs.filters ++
    [.or [.compare orderField op orderValue,
      .and [.compare orderField .eq orderValue, .compare pkField op (.i64 cursorPk)]]] }

def order (qs : QuerySet m) (field : String) : Except OrmError (QuerySet m) :=
  let (cleanField, desc) := stripDash field
  match m.field? cleanField with
  | some f => .ok { qs with orderBy := qs.orderBy ++ [("\"" ++ f.columnName ++ "\"", desc)] }
  | none =>
    match m.relation? cleanField with
    | some r => .ok { qs with orderBy := qs.orderBy ++ [("\"" ++ r.fieldName ++ "\"", desc)] }
    | none => .error (.fieldNotFound cleanField m.structName)

def withLimit (qs : QuerySet m) (n : Int) : QuerySet m := { qs with limit := some n }

def withOffset (qs : QuerySet m) (n : Int) : QuerySet m := { qs with offset := some n }

def selectForUpdate (qs : QuerySet m) : QuerySet m :=
  if qs.forUpdate.isNone then { qs with forUpdate := some {} } else qs

end QuerySet

/-- A builder call that narrows the rows of a query set. -/
inductive Narrow where
  | filter (expr : UnresolvedExpr)
  | exclude (expr : UnresolvedExpr)
  | filterOrIcontains (fields : List String) (term : String)
  | filterDatetimeRange (field : String) (gte lt : DateTime)
  | search (query : String) (fields : List String)
  | after (orderField : String) (orderValue : Value) (pkField : String) (cursorPk : Int) (descending : Bool)

def Narrow.isSearch : Narrow → Bool
  | .search _ _ => true
  | _ => false

def Narrow.apply {m : ModelMeta} (qs : QuerySet m) : Narrow → Except OrmError (QuerySet m)
  | .filter expr => qs.filter expr
  | .exclude expr => qs.exclude expr
  | .filterOrIcontains fields term => qs.filterOrIcontains fields term
  | .filterDatetimeRange field gte lt => qs.filterDatetimeRange field gte lt
  | .search query fields => qs.search query fields
  | .after orderField orderValue pkField cursorPk descending => qs.after orderField orderValue pkField cursorPk descending

/-- `qs.call₁(…)?.call₂(…)?…` -/
def QuerySet.narrow {m : ModelMeta} (qs : QuerySet m) (calls : List Narrow) : Except OrmError (QuerySet m) :=
  calls.foldlM Narrow.apply qs

/-! ## Statements -/

/-- The `WHERE` clause of a statement. `dangling` is the text ` AND (…)` without a `WHERE` before it:
    `compile_select_with_order` asks whether the statement so far contains ` WHERE `, which the name of
    a table can. -/
inductive Where (π : Type) where
  | absent
  | cond (c : Pred SqlOp π)
  | dangling (text : String)

def Where.map {π π' : Type} (f : π → π') : Where π → Where π'
  | .absent => .absent
  | .cond c => .cond (c.map f)
  | .dangling text => .dangling text

def Where.ofFilters {π : Type} : List (Pred SqlOp π) → Where π
  | [] => .absent
  | c :: cs => .cond (.conj (c :: cs))

/-- `sql.contains(" WHERE ")` -/
def containsWhere (sql : String) : Bool := sql.toList.tails.any (" WHERE ".toList.isPrefixOf ·)

/-- The search condition is added with `AND` to the filters, or is the clause by itself. -/
def Where.withSearch {π : Type} (head : String) (filters : List (Pred SqlOp π)) : Option String → Where π
  | none => .ofFilters filters
  | some sc =>
    if filters = [] ∧ containsWhere head then .dangling sc else .cond (.conj (filters ++ [.raw sc]))

def Where.text (d : Dialect) : Where Nat → String
  | .absent => ""
  | .cond c => " WHERE " ++ condText d c
  | .dangling sc => " AND (" ++ sc ++ ")"

structure Select where
  selectList : String
  table : String
  where_ : Where Nat
  order : List (String × Bool)
  limit : Option Int
  offset : Option Int
  forUpdate : Option ForUpdate
  params : List Value

/-- The right-hand side of an assignment: `$n`, or `"col" op $n`. -/
inductive SetRhs where
  | param (n : Nat)
  | arith (c : ColRef) (op : ArithOp) (n : Nat)

structure Assign where
  lhs : ColRef
  rhs : SetRhs

structure Update where
  table : String
  sets : List Assign
  where_ : Where Nat
  binds : List BindValue

structure Delete where
  table : String
  where_ : Where Nat
  binds : List BindValue

/-- The rows of an `INSERT`; each row has its values in the order of `cols`. -/
inductive InsertRows where
  | defaultValues
  | values (cols : List String) (rows : List (List BindValue))

structure Insert where
  table : String
  source : InsertRows
  returning : String

/-! ## Compiling -/

/-- `null_bind_kind_for` -/
def nullBindKindFor (fieldName : String) (m : ModelMeta) : NullKind :=
  match m.field? fieldName with
  | some f =>
    match f.kind with
    | .char | .text | .email | .url | .slug | .ip | .fileField => .text
    | .integer | .bigInt => .i64
    | .float => .f64
    | .boolean => .bool
    | .dateTime => .dateTime
    | _ => .i64
  | none => .i64

/-- How a call ends other than by `Ok`: with an `OrmError` or a panic. -/
inductive Stop where
  | err (e : OrmError)
  | panic
deriving DecidableEq, Repr

namespace QuerySet
variable {m : ModelMeta}

/-- The members of the condition that `compile_expr_sql` gives for `Expr::And(self.filters)`. -/
def compileFilters [Fmt] (qs : QuerySet m) (d : Dialect) (st : Params) : List Cond × Params :=
  compileAll d m.tableName none (fieldToCol m) qs.filters st

/-- The ordering of the query set, else the default ordering of the model. -/
def orderSource (qs : QuerySet m) (includeOrder : Bool) : List (String × Bool) :=
  if !includeOrder then []
  else if qs.orderBy ≠ [] then qs.orderBy
  else m.ordering.map fun field =>
    let (cleanField, desc) := stripDash field
    (colText (fieldToCol m cleanField), desc)

/-- `compile_select_with_order` -/
def compileSelectWithOrder [Fmt] (qs : QuerySet m) (selectList : String) (includeOrder : Bool) (d : Dialect) : Select :=
  let head := "SELECT " ++ selectList ++ " FROM \"" ++ m.tableName ++ "\""
  let (filters, st) := qs.compileFilters d ⟨[], 1⟩
  { selectList, table := m.tableName, where_ := .withSearch head filters qs.searchCondition,
    order := qs.orderSource includeOrder, limit := qs.limit, offset := qs.offset, forUpdate := qs.forUpdate,
    params := st.values }

/-- The statement of `all` and `cached_all`. -/
def select [Fmt] (qs : QuerySet m) (d : Dialect) : Select := qs.compileSelectWithOrder "*" true d

/-- `check_for_update` -/
def checkForUpdate (qs : QuerySet m) (d : Dialect) (inTransaction : Bool) : Except OrmError Unit :=
  match qs.forUpdate with
  | none => .ok ()
  | some fu =>
    if !inTransaction then .error .selectForUpdateOutsideTransaction
    else if d = .sqlite ∧ (fu.nowait ∨ fu.skipLocked ∨ fu.of ≠ []) then
      .error (.unsupportedOnDialect "nowait, skip_locked, and lock_of are not supported on SQLite")
    else .ok ()

def setRhs (m : ModelMeta) (idx : Nat) : SetExpr → SetRhs
  | .literal _ => .param idx
  | .fieldOp field op _ => .arith (fieldToCol m field) op idx

def setBind (nk : NullKind) : SetExpr → BindValue
  | .literal v => v.toBindAs nk
  | .fieldOp _ _ operand => operand.toBindAs nk

/-- The assignments of an `UPDATE` with the values they bind, numbered from `idx`. -/
def compileSets (m : ModelMeta) : List (String × SetExpr) → Nat → List Assign × List BindValue
  | [], _ => ([], [])
  | (field, e) :: sets, idx =>
    let (assigns, binds) := compileSets m sets (idx + 1)
    (⟨fieldToCol m field, setRhs m idx e⟩ :: assigns, setBind (nullBindKindFor field m) e :: binds)

/-- The field checks at the start of `update`: each assigned field, then the field it reads. -/
def checkSet (m : ModelMeta) (set : String × SetExpr) : Except OrmError Unit := do
  let _ ← checkFieldMeta m set.1
  match set.2 with
  | .literal _ => return ()
  | .fieldOp field _ _ =>
    let _ ← checkFieldMeta m field
    return ()

/-- The statement of `QuerySet::update`. -/
def update [Fmt] (qs : QuerySet m) (d : Dialect) (sets : List (String × SetExpr)) : Except OrmError Update := do
  sets.forM (checkSet m)
  let (assigns, setBinds) := compileSets m sets 1
  let (filters, st) := qs.compileFilters d ⟨[], 1 + sets.length⟩
  return { table := m.tableName, sets := assigns, where_ := Where.ofFilters filters,
           binds := setBinds ++ st.values.map Value.toBind }

/-- The statement of `QuerySet::delete`. -/
def delete [Fmt] (qs : QuerySet m) (d : Dialect) : Delete :=
  let (filters, st) := qs.compileFilters d ⟨[], 1⟩
  { table := m.tableName, where_ := .ofFilters filters, binds := st.values.map Value.toBind }

/-- The column, value and name of a field that `insert_raw` stores; an auto field is skipped. -/
def insertColumn (m : ModelMeta) (value : String × Value) : Except Stop (Option (String × BindValue)) :=
  match m.field? value.1 with
  | some f =>
    if f.auto then .ok none else .ok (some (f.columnName, value.2.toBindAs (nullBindKindFor value.1 m)))
  | none =>
    match m.relation? value.1 with
    | some r => .ok (some (r.fieldName, value.2.toBindAs (nullBindKindFor value.1 m)))
    | none => .error (.err (.fieldNotFound value.1 m.structName))

/-- The statement of `QuerySet::insert_raw`. A model without a primary key panics. -/
def insertRaw (m : ModelMeta) (values : List (String × Value)) : Except Stop Insert := do
  match m.primaryKey? with
  | none => .error .panic
  | some pk =>
    let processed ← values.mapM (insertColumn m)
    let cols := processed.filterMap id
    let source : InsertRows := if cols = [] then .defaultValues else .values (cols.map (·.1)) [cols.map (·.2)]
    return { table := m.tableName, source, returning := pk.columnName }

/-- The column of a field that `bulk_create` stores. -/
def bulkColumn (m : ModelMeta) (fieldName : String) : Option String :=
  match m.field? fieldName with
  | some f => if f.auto then none else some f.columnName
  | none => if m.relations.any (·.fieldName == fieldName) then some fieldName else none

/-- The statement of `QuerySet::bulk_create` for the field values of the items, none for no items. The
    columns are those of the first item. -/
def bulkCreate (m : ModelMeta) : List (List (String × Value)) → Except Stop (Option Insert)
  | [] => .ok none
  | first :: items =>
    match m.primaryKey? with
    | none => .error .panic
    | some pk =>
      let colOrder := (first.map (·.1)).filter fun name => (bulkColumn m name).isSome
      let row (item : List (String × Value)) := colOrder.map fun name =>
        ((item.lookup name).getD .null).toBindAs (nullBindKindFor name m)
      let source : InsertRows := .values (colOrder.filterMap (bulkColumn m)) ((first :: items).map row)
      .ok (some { table := m.tableName, source, returning := pk.columnName })

/-- The statement of `QuerySet::delete_by_pk`. -/
def deleteByPk (m : ModelMeta) (pk : Int) : Except Stop Delete :=
  match m.primaryKey? with
  | none => .error .panic
  | some f => .ok { table := m.tableName, where_ := .cond (.cmp (.column f.columnName) .eq (.param 1)), binds := [.i64 pk] }

end QuerySet

/-! ## Text of statements -/

def orderText (order : List (String × Bool)) : String :=
  if order = [] then ""
  else " ORDER BY " ++ ", ".intercalate (order.map fun (col, desc) => if desc then col ++ " DESC" else col ++ " ASC")

def forUpdateText (d : Dialect) (fu : ForUpdate) : String :=
  " FOR UPDATE" ++ (if fu.of = [] then "" else " OF " ++ ", ".intercalate (fu.of.map d.quoteIdent)) ++
    if fu.nowait then " NOWAIT" else if fu.skipLocked then " SKIP LOCKED" else ""

def Select.text (d : Dialect) (s : Select) : String :=
  "SELECT " ++ s.selectList ++ " FROM \"" ++ s.table ++ "\"" ++ s.where_.text d ++ orderText s.order ++
    (match s.limit with
      | some n => " LIMIT " ++ toString n
      | none => "") ++
    (match s.offset with
      | some n => (if s.limit.isNone && d == .sqlite then " LIMIT -1" else "") ++ " OFFSET " ++ toString n
      | none => "") ++
    match d, s.forUpdate with
      | .postgres, some fu => forUpdateText d fu
      | _, _ => ""

def ArithOp.text : ArithOp → String
  | .add => "+"
  | .sub => "-"
  | .mul => "*"
  | .div => "/"

def Assign.text (d : Dialect) (a : Assign) : String :=
  colText a.lhs ++ " = " ++
    match a.rhs with
    | .param n => d.placeholder n
    | .arith c op n => colText c ++ " " ++ op.text ++ " " ++ d.placeholder n

def Update.text (d : Dialect) (u : Update) : String :=
  "UPDATE \"" ++ u.table ++ "\" SET " ++ ", ".intercalate (u.sets.map (Assign.text d)) ++ u.where_.text d

def Delete.text (d : Dialect) (s : Delete) : String := "DELETE FROM \"" ++ s.table ++ "\"" ++ s.where_.text d

/-- The placeholders of the rows of an `INSERT`, numbered through from `idx`. -/
def rowTexts (d : Dialect) : List (List BindValue) → Nat → List String
  | [], _ => []
  | row :: rows, idx =>
    ("(" ++ ", ".intercalate ((List.range' idx row.length).map d.placeholder) ++ ")") :: rowTexts d rows (idx + row.length)

def Insert.text (d : Dialect) (s : Insert) : String :=
  "INSERT INTO \"" ++ s.table ++ "\" " ++
    (match s.source with
      | .defaultValues => "DEFAULT VALUES"
      | .values cols rows =>
        "(" ++ ", ".intercalate (cols.map fun c => "\"" ++ c ++ "\"") ++ ") VALUES " ++
          ", ".intercalate (rowTexts d rows 1)) ++
    " RETURNING \"" ++ s.returning ++ "\""

end Djangors.Orm
