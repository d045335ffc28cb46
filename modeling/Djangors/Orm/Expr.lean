import Djangors.Orm.Meta

/-! # Expressions

`djangors-orm/src/expr.rs`: values, comparison operators, resolved and unresolved filter trees, and
the assignments of an UPDATE. -/

namespace Djangors.Orm
open Db

/-- A dynamic value in expressions and query parameters. -/
inductive Value where
  | i64 (v : Int)
  | f64 (v : F64)
  | text (v : String)
  | bool (v : Bool)
  | dateTime (v : DateTime)
  | null
  | list (items : List Value)
deriving Repr

/-- Induction over a value with the hypothesis for every member of a list. -/
@[elab_as_elim]
theorem Value.ind {P : Value → Prop} (i64 : ∀ v, P (.i64 v)) (f64 : ∀ v, P (.f64 v)) (text : ∀ v, P (.text v))
    (bool : ∀ v, P (.bool v)) (dateTime : ∀ v, P (.dateTime v)) (null : P .null)
    (list : ∀ vs, (∀ v ∈ vs, P v) → P (.list vs)) (v : Value) : P v :=
  @Value.rec P (fun vs => ∀ v ∈ vs, P v) i64 f64 text bool dateTime null list
    (by simp) (fun v vs hv hvs v' h => by
      rcases List.mem_cons.mp h with rfl | h
      · exact hv
      · exact hvs v' h) v

/-- `From<Value> for BindValue`. A list is expanded before it is bound, so its arm is not reached. -/
def Value.toBind : Value → BindValue
  | .i64 v => .i64 v
  | .f64 v => .f64 v
  | .text v => .text v
  | .bool v => .bool v
  | .dateTime v => .dateTime v
  | .null => .null .i64
  | .list _ => .null .i64

/-- The bind value where a NULL takes the type `nk` of its column:
    `match v { Value::Null => BindValue::Null(nk), other => BindValue::from(other) }`. -/
def Value.toBindAs (nk : NullKind) : Value → BindValue
  | .null => .null nk
  | v => v.toBind

mutual

/-- `Display for Value` -/
def Value.display [Fmt] : Value → String
  | .i64 v => toString v
  | .f64 v => Fmt.f64Display v
  | .text v => v
  | .bool v => toString v
  | .dateTime v => Fmt.dateTimeDisplay v
  | .null => "-"
  | .list items => ", ".intercalate (Value.displayAll items)

def Value.displayAll [Fmt] : List Value → List String
  | [] => []
  | v :: vs => v.display :: Value.displayAll vs

end

/-- Comparison operators of filter expressions. -/
inductive CompareOp where
  | eq
  | lt
  | lte
  | gt
  | gte
  | contains
  | iContains
  | startsWith
  | endsWith
  | ne
  | iExact
  | in
  | isNull
  | regex
  | iRegex
deriving DecidableEq, Repr

/-- Resolved boolean expression tree of a WHERE clause. -/
inductive Expr where
  | compare (field : String) (op : CompareOp) (value : Value)
  | and (exprs : List Expr)
  | or (exprs : List Expr)
  | not (inner : Expr)
  | compareField (left : String) (op : CompareOp) (right : String)
  | exists_ (negated : Bool) (table : String) (filters : List Expr)
  | outerCompare (field : String) (op : CompareOp) (outerField : String)

/-- Raw field comparison before its lookup suffix is resolved. -/
structure UnresolvedCompare where
  field : String
  value : Value

/-- Raw column-to-column comparison before its lookup suffix is resolved. -/
structure UnresolvedFieldCompare where
  left : String
  right : String

/-- Raw comparison of a subquery field with an outer field. -/
structure UnresolvedOuterCompare where
  field : String
  outerField : String

/-- Unresolved filter expression. -/
inductive UnresolvedExpr where
  | and (compares : List UnresolvedCompare)
  | andFields (compares : List UnresolvedFieldCompare)
  | andOuter (compares : List UnresolvedOuterCompare)
  | all (nodes : List UnresolvedExpr)
  | any (nodes : List UnresolvedExpr)
  | negate (inner : UnresolvedExpr)
  | exists_ (negated : Bool) (subqueryMeta : ModelMeta) (filters : List UnresolvedExpr)

/-- Induction over an unresolved expression with the hypothesis for every node of a list. -/
@[elab_as_elim]
theorem UnresolvedExpr.ind {P : UnresolvedExpr → Prop} (and : ∀ cs, P (.and cs)) (andFields : ∀ cs, P (.andFields cs))
    (andOuter : ∀ cs, P (.andOuter cs)) (all : ∀ es, (∀ e ∈ es, P e) → P (.all es))
    (any : ∀ es, (∀ e ∈ es, P e) → P (.any es)) (negate : ∀ e, P e → P (.negate e))
    (exists_ : ∀ n m es, (∀ e ∈ es, P e) → P (.exists_ n m es)) (e : UnresolvedExpr) : P e :=
  @UnresolvedExpr.rec P (fun es => ∀ e ∈ es, P e) and andFields andOuter all any negate
    exists_ (by simp) (fun e es he hes e' h => by
      rcases List.mem_cons.mp h with rfl | h
      · exact he
      · exact hes e' h) e

/-- Induction over a resolved expression with the hypothesis for every member of a list. -/
@[elab_as_elim]
theorem Expr.ind {P : Expr → Prop} (compare : ∀ f o v, P (.compare f o v)) (and : ∀ es, (∀ e ∈ es, P e) → P (.and es))
    (or : ∀ es, (∀ e ∈ es, P e) → P (.or es)) (not : ∀ e, P e → P (.not e))
    (compareField : ∀ l o r, P (.compareField l o r)) (exists_ : ∀ n t es, (∀ e ∈ es, P e) → P (.exists_ n t es))
    (outerCompare : ∀ f o g, P (.outerCompare f o g)) (e : Expr) : P e :=
  @Expr.rec P (fun es => ∀ e ∈ es, P e) compare and or not compareField exists_ outerCompare
    (by simp) (fun e es he hes e' h => by
      rcases List.mem_cons.mp h with rfl | h
      · exact he
      · exact hes e' h) e

/-- `s.rfind("__")`: what stands before and after the last `__`. -/
def rsplitUnderscores : List Char → Option (List Char × List Char)
  | [] => none
  | c :: cs =>
    match rsplitUnderscores cs with
    | some (field, suffix) => some (c :: field, suffix)
    | none =>
      match c, cs with
      | '_', '_' :: suffix => some ([], suffix)
      | _, _ => none

/-- The lookup suffixes that `split_field_lookup` accepts. -/
def lookupSuffixes : List String :=
  ["eq", "lt", "lte", "gt", "gte", "contains", "icontains", "startswith", "endswith", "ne", "iexact", "in", "isnull",
    "regex", "iregex"]

/-- Splits a field lookup (`"age__gte"`) into the field name and the suffix. -/
def splitFieldLookup (s : String) : String × String :=
  match rsplitUnderscores s.toList with
  | some (field, suffix) =>
    if String.ofList suffix ∈ lookupSuffixes then (String.ofList field, String.ofList suffix) else (s, "eq")
  | none => (s, "eq")

example : splitFieldLookup "age__gte" = ("age", "gte") := by decide

/-- `suffix_to_op` -/
def suffixToOp (suffix : String) : CompareOp :=
  match suffix with
  | "eq" => .eq
  | "lt" => .lt
  | "lte" => .lte
  | "gt" => .gt
  | "gte" => .gte
  | "contains" => .contains
  | "icontains" => .iContains
  | "startswith" => .startsWith
  | "endswith" => .endsWith
  | "ne" => .ne
  | "iexact" => .iExact
  | "in" => .in
  | "isnull" => .isNull
  | "regex" => .regex
  | "iregex" => .iRegex
  | _ => .eq

/-- Arithmetic operators of UPDATE set expressions. -/
inductive ArithOp where
  | add
  | sub
  | mul
  | div
deriving DecidableEq, Repr

/-- A value assignment of an UPDATE query. -/
inductive SetExpr where
  | literal (value : Value)
  | fieldOp (field : String) (op : ArithOp) (operand : Value)

/-- Errors of ORM operations (the variants the modelled functions raise). -/
inductive OrmError where
  | query (message : String)
  | notFound (model : String)
  | multipleObjectsReturned (model : String)
  | invalidQuery (message : String)
  | fieldNotFound (field model : String)
  | unsupportedOnDialect (message : String)
  | selectForUpdateOutsideTransaction
deriving DecidableEq, Repr

end Djangors.Orm
