import Djangors.Orm.Compile
import Djangors.Orm.Resolve

/-! # What filters mean

The truth value of an expression at a row, under three-valued logic, before and after its names are resolved
(`djangors-orm/src/expr.rs`). It is what compiled conditions are compared with, and refers to no text. -/

namespace Djangors.Orm
open Db Sql

/-! ### Operators -/

/-- The lookups that search for the text of a value. -/
def CompareOp.isText : CompareOp → Bool
  | .contains | .iContains | .startsWith | .endsWith => true
  | _ => false

section Operators
variable (I : Interp SqlOp Cell) (d : Dialect)

/-- What an operator says of two values. -/
def CompareOp.meaning (op : CompareOp) (a b : Cell) : Option Bool :=
  match op with
  | .eq => I.compare .eq a b
  | .ne => I.compare .ne a b
  | .lt => I.compare .lt a b
  | .lte => I.compare .lte a b
  | .gt => I.compare .gt a b
  | .gte => I.compare .gte a b
  | .contains => I.compare .like a (I.pattern true true b)
  | .iContains => I.compare (ilike d) a (I.pattern true true b)
  | .startsWith => I.compare .like a (I.pattern false true b)
  | .endsWith => I.compare .like a (I.pattern true false b)
  | .iExact => I.compare (ilike d) a b
  | .regex => I.compare .regex a b
  | .iRegex => I.compare .iregex a b
  | .in => I.equal a b
  | .isNull => some (I.isNull a != (b == .bool false))

/-- The stored value that stands for a value beside an operator. -/
def CompareOp.operand [Fmt] (op : CompareOp) (v : Value) : Cell :=
  match v with
  | .null => .null
  | v => if op.isText then .text v.display else v.toBind.cell

/-- What an operator says of a stored value and a value. -/
def CompareOp.valueMeaning [Fmt] (op : CompareOp) (a : Cell) (v : Value) : Option Bool :=
  match op with
  | .in => ((inItems v).map fun item => I.equal a item.toBind.cell).foldr or3 (some false)
  | op => op.meaning I d a (op.operand v)

end Operators

/-! ### Expressions -/

section Meaning
variable [Fmt] (I : Interp SqlOp Cell) (d : Dialect) (db : Tables Cell) (outerTable : String)

/-- A comparison of a column with a value. Nothing is in an empty list. -/
def compareMeaning (env : List (Frame Cell)) (col : ColRef) (op : CompareOp) (v : Value) : Option Bool :=
  match op, inItems v with
  | .in, [] => some false
  | op, _ => (col.value env).bind fun a => op.valueMeaning I d a v

/-- A comparison of two columns. -/
def columnsMeaning (env : List (Frame Cell)) (lhs : ColRef) (op : CompareOp) (rhs : ColRef) : Option Bool :=
  (lhs.value env).bind fun a => (rhs.value env).bind fun b => op.meaning I d a b

mutual

def Expr.meaning (sub : Option String) (toCol : String → ColRef) : List (Frame Cell) → Expr → Option Bool
  | env, .compare field op value => compareMeaning I d env (toCol field) op value
  | env, .and exprs => Expr.conjMeaning sub toCol env exprs
  | env, .or exprs => Expr.disjMeaning sub toCol env exprs
  | env, .not inner => (Expr.meaning sub toCol env inner).map (!·)
  | env, .compareField left op right => columnsMeaning I d env (toCol left) op (toCol right)
  | env, .outerCompare field op outerField =>
    columnsMeaning I d env (.qualified (sub.getD outerTable) field) op (.qualified outerTable outerField)
  | env, .exists_ negated table filters =>
    some (((db table).any fun r => Expr.conjMeaning (some table) (.qualified table) (⟨table, r⟩ :: env) filters == some true)
      != negated)

def Expr.conjMeaning (sub : Option String) (toCol : String → ColRef) : List (Frame Cell) → List Expr → Option Bool
  | _, [] => some true
  | env, e :: es => and3 (Expr.meaning sub toCol env e) (Expr.conjMeaning sub toCol env es)

def Expr.disjMeaning (sub : Option String) (toCol : String → ColRef) : List (Frame Cell) → List Expr → Option Bool
  | _, [] => some false
  | env, e :: es => or3 (Expr.meaning sub toCol env e) (Expr.disjMeaning sub toCol env es)

end

/-! ### Unresolved expressions -/

/-- The column that a name of a subquery or of the query around it stands for. -/
def fieldColumn (m : ModelMeta) (field : String) : String :=
  match m.fields.find? fun f => f.name == field || f.columnName == field with
  | some f => f.columnName
  | none => field

/-- The comparisons of a leaf hold together. -/
def conj3 (values : List (Option Bool)) : Option Bool := values.foldr and3 (some true)

mutual

def UnresolvedExpr.meaning (m : ModelMeta) (outer : Option ModelMeta) (sub : Option String) (toCol : String → ColRef) :
    List (Frame Cell) → UnresolvedExpr → Option Bool
  | env, .and compares => conj3 <| compares.map fun comp =>
      compareMeaning I d env (toCol (splitFieldLookup comp.field).1) (suffixToOp (splitFieldLookup comp.field).2) comp.value
  | env, .andFields compares => conj3 <| compares.map fun comp =>
      columnsMeaning I d env (toCol (splitFieldLookup comp.left).1) (suffixToOp (splitFieldLookup comp.left).2)
        (toCol comp.right)
  | env, .andOuter compares => conj3 <| compares.map fun comp =>
      columnsMeaning I d env (.qualified (sub.getD outerTable) (fieldColumn m (splitFieldLookup comp.field).1))
        (suffixToOp (splitFieldLookup comp.field).2)
        (.qualified outerTable ((outer.map (fieldColumn · comp.outerField)).getD comp.outerField))
  | env, .all nodes => UnresolvedExpr.conjMeaning m outer sub toCol env nodes
  | env, .any nodes => UnresolvedExpr.disjMeaning m outer sub toCol env nodes
  | env, .negate inner => (UnresolvedExpr.meaning m outer sub toCol env inner).map (!·)
  | env, .exists_ negated subMeta filters =>
    some (((db subMeta.tableName).any fun r =>
      UnresolvedExpr.conjMeaning subMeta (some m) (some subMeta.tableName) (.qualified subMeta.tableName)
        (⟨subMeta.tableName, r⟩ :: env) filters == some true) != negated)

def UnresolvedExpr.conjMeaning (m : ModelMeta) (outer : Option ModelMeta) (sub : Option String) (toCol : String → ColRef) :
    List (Frame Cell) → List UnresolvedExpr → Option Bool
  | _, [] => some true
  | env, e :: es =>
    and3 (UnresolvedExpr.meaning m outer sub toCol env e) (UnresolvedExpr.conjMeaning m outer sub toCol env es)

def UnresolvedExpr.disjMeaning (m : ModelMeta) (outer : Option ModelMeta) (sub : Option String) (toCol : String → ColRef) :
    List (Frame Cell) → List UnresolvedExpr → Option Bool
  | _, [] => some false
  | env, e :: es =>
    or3 (UnresolvedExpr.meaning m outer sub toCol env e) (UnresolvedExpr.disjMeaning m outer sub toCol env es)

end

end Meaning

/-! ### Operators on expressions -/

/-- `BitAnd for Expr` -/
def Expr.bitand : Expr → Expr → Expr
  | .and l, .and r => .and (l ++ r)
  | .and l, r => .and (l ++ [r])
  | l, .and r => .and (l :: r)
  | l, r => .and [l, r]

/-- `BitOr for Expr` -/
def Expr.bitor : Expr → Expr → Expr
  | .or l, .or r => .or (l ++ r)
  | .or l, r => .or (l ++ [r])
  | l, .or r => .or (l :: r)
  | l, r => .or [l, r]

/-- `BitAnd for UnresolvedExpr` -/
def UnresolvedExpr.bitand : UnresolvedExpr → UnresolvedExpr → UnresolvedExpr
  | .all l, .all r => .all (l ++ r)
  | .all l, r => .all (l ++ [r])
  | l, .all r => .all (l :: r)
  | l, r => .all [l, r]

/-- `BitOr for UnresolvedExpr` -/
def UnresolvedExpr.bitor : UnresolvedExpr → UnresolvedExpr → UnresolvedExpr
  | .any l, .any r => .any (l ++ r)
  | .any l, r => .any (l ++ [r])
  | l, .any r => .any (l :: r)
  | l, r => .any [l, r]

/-- An expression as it is written with `&`, `|` and `!`. -/
inductive Formula (α : Type) where
  | leaf (e : α)
  | and (l r : Formula α)
  | or (l r : Formula α)
  | not (inner : Formula α)

namespace Formula
variable {α : Type}

def fold (and or : α → α → α) (not : α → α) : Formula α → α
  | leaf e => e
  | .and l r => and (l.fold and or not) (r.fold and or not)
  | .or l r => or (l.fold and or not) (r.fold and or not)
  | .not inner => not (inner.fold and or not)

def leaves : Formula α → List α
  | leaf e => [e]
  | .and l r | .or l r => l.leaves ++ r.leaves
  | .not inner => inner.leaves

end Formula

/-- The tree that the operators of `Expr` build. -/
def Formula.expr (w : Formula Expr) : Expr := w.fold Expr.bitand Expr.bitor .not

/-- The tree that the operators of `UnresolvedExpr` build. -/
def Formula.unresolved (w : Formula UnresolvedExpr) : UnresolvedExpr :=
  w.fold UnresolvedExpr.bitand UnresolvedExpr.bitor .negate

/-- The binary tree of an expression, without flattening. -/
def Formula.binaryExpr (w : Formula Expr) : Expr := w.fold (fun l r => .and [l, r]) (fun l r => .or [l, r]) .not

def Formula.binaryUnresolved (w : Formula UnresolvedExpr) : UnresolvedExpr :=
  w.fold (fun l r => .all [l, r]) (fun l r => .any [l, r]) .negate

end Djangors.Orm
