import Djangors.Orm.Expr

/-! # Resolving filters

`QuerySet::resolve_expr_with_meta` (`djangors-orm/src/queryset.rs`): field names are checked against
the model of the query they stand in, outer references against the model of the query around it. -/

namespace Djangors.Orm

/-- `QuerySet::check_field_meta` -/
def checkFieldMeta (m : ModelMeta) (field : String) : Except OrmError String :=
  if m.fields.any (·.name == field) || m.relations.any (·.fieldName == field) then .ok field
  else .error (.fieldNotFound field m.structName)

/-- `QuerySet::check_field_column_meta` -/
def checkFieldColumnMeta (m : ModelMeta) (field : String) : Except OrmError String :=
  match m.fields.find? fun f => f.name == field || f.columnName == field with
  | some f => .ok f.columnName
  | none =>
    match m.relation? field with
    | some r => .ok r.fieldName
    | none => .error (.fieldNotFound field m.structName)

/-- One comparison of a `q!` leaf. -/
def resolveCompare (m : ModelMeta) (comp : UnresolvedCompare) : Except OrmError Expr := do
  let (fieldName, suffix) := splitFieldLookup comp.field
  let field ← checkFieldMeta m fieldName
  return .compare field (suffixToOp suffix) comp.value

/-- One comparison of a `q_f!` leaf. -/
def resolveFieldCompare (m : ModelMeta) (comp : UnresolvedFieldCompare) : Except OrmError Expr := do
  let (leftName, suffix) := splitFieldLookup comp.left
  let left ← checkFieldMeta m leftName
  let right ← checkFieldMeta m comp.right
  return .compareField left (suffixToOp suffix) right

/-- One comparison of a `q_outer!` leaf; both sides resolve to column names. -/
def resolveOuterCompare (m outer : ModelMeta) (comp : UnresolvedOuterCompare) : Except OrmError Expr := do
  let (fieldName, suffix) := splitFieldLookup comp.field
  let subCol ← checkFieldColumnMeta m fieldName
  let outerCol ← checkFieldColumnMeta outer comp.outerField
  return .outerCompare subCol (suffixToOp suffix) outerCol

mutual

/-- `QuerySet::resolve_expr_with_meta` -/
def resolveExprWithMeta (m : ModelMeta) (outer : Option ModelMeta) : UnresolvedExpr → Except OrmError Expr
  | .and compares => do return .and (← compares.mapM (resolveCompare m))
  | .andFields compares => do return .and (← compares.mapM (resolveFieldCompare m))
  | .andOuter compares =>
    match outer with
    | none => .error (.invalidQuery "OuterRef can only be used within a subquery")
    | some outer => do return .and (← compares.mapM (resolveOuterCompare m outer))
  | .all nodes => do return .and (← resolveAll m outer nodes)
  | .any nodes => do return .or (← resolveAll m outer nodes)
  | .negate inner => do return .not (← resolveExprWithMeta m outer inner)
  | .exists_ negated subMeta filters => do
    return .exists_ negated subMeta.tableName (← resolveAll subMeta (some m) filters)

def resolveAll (m : ModelMeta) (outer : Option ModelMeta) : List UnresolvedExpr → Except OrmError (List Expr)
  | [] => .ok []
  | e :: es => do
    let r ← resolveExprWithMeta m outer e
    let rs ← resolveAll m outer es
    return r :: rs

end

/-- `QuerySet::resolve_expr` -/
def resolveExpr (m : ModelMeta) (e : UnresolvedExpr) : Except OrmError Expr := resolveExprWithMeta m none e

end Djangors.Orm
