import Djangors.Rest.Pagination

/-! # Filter backends

`FieldFilter`, `SearchFilter` and `OrderingFilter` (`djangors-rest/src/filters.rs`). -/

namespace Djangors.Rest
open Db Http Orm Sql

/-- `ALLOWED_LOOKUPS` -/
def allowedLookups : List String :=
  ["eq", "ne", "lt", "lte", "gt", "gte", "contains", "icontains", "startswith", "endswith", "iexact", "in", "isnull"]

/-- The lookups whose value is a text, also beside a column of another type. -/
def textLookups : List String := ["contains", "icontains", "startswith", "endswith", "iexact"]

/-- `parse_typed`: a field has the arms of `parse_filter_value`, and any other name is taken for a relation. -/
def parseTyped [Parse] (m : ModelMeta) (fieldName raw : String) : Option Value :=
  match m.field? fieldName with
  | none => (parseI64 raw).map .i64
  | some _ => parseFilterValue m fieldName raw

/-- `map_err(|e| DjangorsError::BadRequest(e.to_string()))` -/
def orBadRequest {α : Type} (result : Except OrmError α) : Except DjangorsError α :=
  result.mapError fun e => .badRequest (ormMessage e).toList

/-- `format!("{}__{}", field, lookup)` -/
def lookupParam (field lookup : String) : String := field ++ "__" ++ lookup

/-! ### Fields -/

structure FieldFilter where
  fields : List String

namespace FieldFilter

/-- `FieldFilter::candidates`: the parameters for a field. -/
def candidates (field : String) : List String := field :: allowedLookups.map (lookupParam field)

/-- `param.rsplit_once("__").map(|(_, l)| l).unwrap_or("eq")` -/
def lookupOf (param : String) : String := ((rsplitUnderscores param.toList).map fun parts => String.ofList parts.2).getD "eq"

/-- The texts of a comma-separated list. -/
def items (raw : String) : List String :=
  ((raw.toList.splitOn ',').map fun s => String.ofList (Text.trim s)).filter (· ≠ "")

section Request
variable [Parse] (m : ModelMeta)

/-- The value that a parameter compares with. -/
def value (base param raw : String) : Option Value :=
  if param ≠ base ∧ lookupOf param = "in" then some (.list ((items raw).filterMap (parseTyped m base)))
  else if param ≠ base ∧ lookupOf param = "isnull" then some (.bool (!(raw = "false" ∨ raw = "0")))
  else if param ≠ base ∧ lookupOf param ∈ textLookups then some (.text raw)
  else parseTyped m base raw

/-- The name that the comparison gets, from the allowlist. -/
def fieldExpr (base param : String) : Option String :=
  if param ≠ base then (allowedLookups.find? (· = lookupOf param)).map (lookupParam base) else some base

/-- What one parameter asks for. -/
def comparison (params : QueryParams) (base param : String) : Option UnresolvedCompare := do
  let raw ← params param
  let value ← value m base param raw
  let fieldExpr ← fieldExpr base param
  return ⟨fieldExpr, value⟩

end Request

variable [Parse] {m : ModelMeta}

/-- One turn of the inner loop. -/
def applyParam (params : QueryParams) (base : String) (qs : QuerySet m) (param : String) :
    Except DjangorsError (QuerySet m) :=
  match comparison m params base param with
  | none => .ok qs
  | some cmp => orBadRequest (qs.filter (.and [cmp]))

/-- `FieldFilter::filter_queryset` -/
def filterQueryset (backend : FieldFilter) (params : QueryParams) (qs : QuerySet m) : Except DjangorsError (QuerySet m) :=
  backend.fields.foldlM (fun qs field => (candidates field).foldlM (applyParam params field) qs) qs

end FieldFilter

/-! ### Search -/

structure SearchFilter where
  fields : List String
  param : String := "search"

/-- `SearchFilter::filter_queryset` -/
def SearchFilter.filterQueryset {m : ModelMeta} (backend : SearchFilter) (params : QueryParams) (qs : QuerySet m) :
    Except DjangorsError (QuerySet m) :=
  match (params backend.param).filter (· ≠ "") with
  | none => .ok qs
  | some term => if backend.fields = [] then .ok qs else orBadRequest (qs.filterOrIcontains backend.fields term)

/-! ### Ordering -/

structure OrderingFilter where
  fields : List String
  param : String := "ordering"

namespace OrderingFilter

/-- The ordering that a part of the parameter asks for, from the allowlist. -/
def spec (backend : OrderingFilter) (rawPart : List Char) : Option String :=
  let part := String.ofList (Text.trim rawPart)
  if part = "" then none
  else (backend.fields.find? (· = (stripDash part).1)).map fun allowed => orderSpec allowed (stripDash part).2

/-- One turn of the loop over the parts. -/
def applyPart {m : ModelMeta} (backend : OrderingFilter) (qs : QuerySet m) (rawPart : List Char) :
    Except DjangorsError (QuerySet m) :=
  match backend.spec rawPart with
  | none => .ok qs
  | some spec => orBadRequest (qs.order spec)

/-- `OrderingFilter::filter_queryset` -/
def filterQueryset {m : ModelMeta} (backend : OrderingFilter) (params : QueryParams) (qs : QuerySet m) :
    Except DjangorsError (QuerySet m) :=
  match params backend.param with
  | none => .ok qs
  | some raw => (raw.toList.splitOn ',').foldlM backend.applyPart qs

end OrderingFilter

/-! ### Backends -/

/-- The backends that come with the crate. -/
inductive BuiltinFilter where
  | field (backend : FieldFilter)
  | search (backend : SearchFilter)
  | ordering (backend : OrderingFilter)

def BuiltinFilter.filterQueryset [Parse] {m : ModelMeta} (params : QueryParams) (qs : QuerySet m) :
    BuiltinFilter → Except DjangorsError (QuerySet m)
  | field backend => backend.filterQueryset params qs
  | search backend => backend.filterQueryset params qs
  | ordering backend => backend.filterQueryset params qs

/-- `apply_backends` -/
def applyBackends [Parse] {m : ModelMeta} (backends : List BuiltinFilter) (params : QueryParams) (qs : QuerySet m) :
    Except DjangorsError (QuerySet m) :=
  backends.foldlM (fun qs backend => backend.filterQueryset params qs) qs

end Djangors.Rest
