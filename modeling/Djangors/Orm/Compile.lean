import Djangors.Lib.Sql
import Djangors.Orm.Expr

/-! # Compiling filters

`compile_expr_sql` (`djangors-orm/src/queryset.rs`). The source pushes text; here the condition is a
tree whose placeholders are the numbers the source gives to `Dialect::placeholder`, and `Pred.text`
is the text. -/

namespace Djangors.Orm
open Db Sql

/-- The SQL operators that compiled filters use. -/
inductive SqlOp where
  | eq
  | ne
  | lt
  | lte
  | gt
  | gte
  | like
  | ilike
  | regex
  | iregex
deriving DecidableEq, Repr

def SqlOp.text : SqlOp → String
  | .eq => "="
  | .ne => "<>"
  | .lt => "<"
  | .lte => "<="
  | .gt => ">"
  | .gte => ">="
  | .like => "LIKE"
  | .ilike => "ILIKE"
  | .regex => "~"
  | .iregex => "~*"

/-- `Dialect::ilike`: SQLite's `LIKE` ignores case already. -/
def ilike : Dialect → SqlOp
  | .postgres => .ilike
  | .sqlite => .like

/-- A condition as compiled: placeholders by number. -/
abbrev Cond := Pred SqlOp Nat

/-! ## Text -/

def colText : ColRef → String
  | .bare c => c
  | .column c => "\"" ++ c ++ "\""
  | .qualified t c => "\"" ++ t ++ "\".\"" ++ c ++ "\""

def operandText (d : Dialect) : Operand Nat → String
  | .param n => d.placeholder n
  | .column c => colText c
  | .pattern b a c => (if b then "'%' || " else "") ++ colText c ++ if a then " || '%'" else ""

mutual

/-- The text that the source emits for a condition. -/
def condText (d : Dialect) : Cond → String
  | .cmp l o r => colText l ++ " " ++ o.text ++ " " ++ operandText d r
  | .inList l items => colText l ++ " IN (" ++ ", ".intercalate (items.map d.placeholder) ++ ")"
  | .isNull l negated => colText l ++ if negated then " IS NOT NULL" else " IS NULL"
  | .conj [] => "TRUE"
  | .conj (p :: ps) => " AND ".intercalate (condTexts d (p :: ps))
  | .disj [] => "FALSE"
  | .disj (p :: ps) => " OR ".intercalate (condTexts d (p :: ps))
  | .neg p => "NOT (" ++ condText d p ++ ")"
  | .exists_ negated t [] => (if negated then "NOT EXISTS" else "EXISTS") ++ " (SELECT 1 FROM \"" ++ t ++ "\")"
  | .exists_ negated t (p :: ps) =>
    (if negated then "NOT EXISTS" else "EXISTS") ++ " (SELECT 1 FROM \"" ++ t ++ "\" WHERE " ++
      " AND ".intercalate (condTexts d (p :: ps)) ++ ")"
  | .raw t => t

def condTexts (d : Dialect) : List Cond → List String
  | [] => []
  | p :: ps => ("(" ++ condText d p ++ ")") :: condTexts d ps

end

/-! ## Parameters -/

/-- `params` and `param_idx`: the values pushed so far and the number of the next placeholder. -/
structure Params where
  values : List Value
  idx : Nat

def Params.push (st : Params) (v : Value) : Params := ⟨st.values ++ [v], st.idx + 1⟩

def Params.extend (st : Params) (vs : List Value) : Params := ⟨st.values ++ vs, st.idx + vs.length⟩

/-! ## Comparisons -/

/-- The operator and the value that a comparison other than `IN` and `IS NULL` binds. -/
def compareParts [Fmt] (d : Dialect) (op : CompareOp) (value : Value) : SqlOp × Value :=
  match op with
  | .ne => (.ne, value)
  | .regex => (.regex, value)
  | .iRegex => (.iregex, value)
  | .iExact => (ilike d, value)
  | .eq => (.eq, value)
  | .lt => (.lt, value)
  | .lte => (.lte, value)
  | .gt => (.gt, value)
  | .gte => (.gte, value)
  | .contains => (.like, .text ("%" ++ value.display ++ "%"))
  | .iContains => (ilike d, .text ("%" ++ value.display ++ "%"))
  | .startsWith => (.like, .text (value.display ++ "%"))
  | .endsWith => (.like, .text ("%" ++ value.display))
  -- `unreachable!("handled above")`
  | .in => (.eq, value)
  | .isNull => (.eq, value)

/-- The values of an `IN` comparison: `Value::List(items) => items`, else the value alone. -/
def inItems : Value → List Value
  | .list items => items
  | v => [v]

def isFalse : Value → Bool
  | .bool false => true
  | _ => false

/-- The `Expr::Compare` arm. -/
def compileCompare [Fmt] (d : Dialect) (col : ColRef) (op : CompareOp) (value : Value) (st : Params) : Cond × Params :=
  match op with
  | .in =>
    match inItems value with
    | [] => (.disj [], st)
    | v :: vs => (.inList col (List.range' st.idx (vs.length + 1)), st.extend (v :: vs))
  | .isNull => (.isNull col (isFalse value), st)
  | op =>
    let (sqlOp, bound) := compareParts d op value
    (.cmp col sqlOp (.param st.idx), st.push bound)

/-- The comparison of two columns, for the `Expr::CompareField` and `Expr::OuterCompare` arms. -/
def compileColumns (d : Dialect) (lhs : ColRef) (op : CompareOp) (rhs : ColRef) : Cond :=
  match op with
  | .eq => .cmp lhs .eq (.column rhs)
  | .ne => .cmp lhs .ne (.column rhs)
  | .lt => .cmp lhs .lt (.column rhs)
  | .lte => .cmp lhs .lte (.column rhs)
  | .gt => .cmp lhs .gt (.column rhs)
  | .gte => .cmp lhs .gte (.column rhs)
  | .contains => .cmp lhs .like (.pattern true true rhs)
  | .iContains => .cmp lhs (ilike d) (.pattern true true rhs)
  | .startsWith => .cmp lhs .like (.pattern false true rhs)
  | .endsWith => .cmp lhs .like (.pattern true false rhs)
  | .iExact => .cmp lhs (ilike d) (.column rhs)
  | .regex => .cmp lhs .regex (.column rhs)
  | .iRegex => .cmp lhs .iregex (.column rhs)
  | .in => .cmp lhs .eq (.column rhs)
  | .isNull => .cmp lhs .eq (.column rhs)

/-! ## Expressions -/

/-- The closure `field_to_col` of the query builders. -/
def fieldToCol (m : ModelMeta) (fieldName : String) : ColRef :=
  match m.field? fieldName with
  | some f => .column f.columnName
  | none =>
    match m.relation? fieldName with
    | some r => .column r.fieldName
    | none => .bare fieldName

mutual

/-- `compile_expr_sql` -/
def compileExprSql [Fmt] (d : Dialect) (outerTable : String) (subqueryTable : Option String)
    (toCol : String → ColRef) : Expr → Params → Cond × Params
  | .compare field op value, st => compileCompare d (toCol field) op value st
  | .and exprs, st =>
    let (ps, st) := compileAll d outerTable subqueryTable toCol exprs st
    (.conj ps, st)
  | .or exprs, st =>
    let (ps, st) := compileAll d outerTable subqueryTable toCol exprs st
    (.disj ps, st)
  | .not inner, st =>
    let (p, st) := compileExprSql d outerTable subqueryTable toCol inner st
    (.neg p, st)
  | .compareField left op right, st => (compileColumns d (toCol left) op (toCol right), st)
  | .outerCompare field op outerField, st =>
    let subTable := subqueryTable.getD outerTable
    (compileColumns d (.qualified subTable field) op (.qualified outerTable outerField), st)
  | .exists_ negated subTable filters, st =>
    -- The filters are compiled as one `Expr::And`; `outer_table` stays the one of the whole statement,
    -- and a field name is taken as a column name.
    let (ps, st) := compileAll d outerTable (some subTable) (.qualified subTable) filters st
    (.exists_ negated subTable ps, st)

def compileAll [Fmt] (d : Dialect) (outerTable : String) (subqueryTable : Option String)
    (toCol : String → ColRef) : List Expr → Params → List Cond × Params
  | [], st => ([], st)
  | e :: es, st =>
    let (p, st) := compileExprSql d outerTable subqueryTable toCol e st
    let (ps, st) := compileAll d outerTable subqueryTable toCol es st
    (p :: ps, st)

end

end Djangors.Orm
