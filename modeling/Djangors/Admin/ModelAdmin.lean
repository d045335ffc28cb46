import Djangors.Admin.Statements
import Djangors.Rest.Serializers

/-! # Model admins

`DefaultModelAdmin` (`djangors-admin/src/model_admin.rs`). The fields of its configuration that only a page shows are
left out. -/

namespace Djangors.Admin
open Db Http Orm Sql

/-! ### Handlers -/

/-- How a handler ends other than by `Ok`. -/
inductive Fault where
  | error (e : DjangorsError)
  | panic

abbrev Handler (α : Type) := Fallible AdminCall.Answer Fault α

/-- `map_err(|e| DjangorsError::Internal(e.to_string()))` -/
def Fault.ofStop : Stop → Fault
  | .err e => .error (.internal (Rest.ormMessage e).toList)
  | .panic => .panic

def orFail {α : Type} (result : Except DjangorsError α) : Handler α := Fallible.lift (result.mapError .error)

/-- A call whose error ends the handler. -/
def ask (call : AdminCall) : Handler call.Result := .call call fun answer => .done (answer.mapError .ofStop)

/-- A call whose error the handler looks at. -/
def attempt (call : AdminCall) : Handler (Except OrmError call.Result) :=
  .call call fun
    | .ok result => .done (.ok (.ok result))
    | .error (.err e) => .done (.ok (.error e))
    | .error .panic => .done (.error .panic)

/-! ### Configuration -/

/-- A bulk action. Its handler is given the selected keys. -/
structure AdminAction where
  name : String
  label : String
  requiresConfirm : Bool
  handler : List Int → Handler Unit

structure InlineConfig where
  structName : String
  relationField : String
  fields : List String

structure ModelAdminConfig where
  listDisplay : Option (List String) := none
  searchFields : Option (List String) := none
  listFilter : Option (List String) := none
  dateHierarchy : Option String := none
  listEditable : Option (List String) := none
  computedColumns : Option (List (String × (List (String × Value) → String))) := none
  actions : Option (List AdminAction) := none
  baseFilter : Option UnresolvedExpr := none
  inlines : Option (List InlineConfig) := none

/-- The names of the fields and of the relations, which are the fields of a struct. -/
def memberNames (m : ModelMeta) : List String := m.fields.map (·.name) ++ m.relations.map (·.fieldName)

/-- A model `M` with the configuration it is registered with: its metadata, `M::objects()`, `M::field_names()`, and how
    a row is read. It has one primary key, each name has a column of its own, and none ends in a lookup. -/
structure ModelAdmin where
  info : ModelMeta
  pk : FieldMeta
  primary : info.fields.filter (·.primaryKey) = [pk]
  objects : QuerySet info
  fieldNames : List String
  fieldValues : Row Cell → Except OrmError (List (String × Value))
  config : ModelAdminConfig
  names_nodup : (memberNames info).Nodup
  columns_nodup : (info.fields.map (·.columnName) ++ info.relations.map (·.fieldName)).Nodup
  names_plain : ∀ name ∈ memberNames info, splitFieldLookup name = (name, "eq")

/-- The field that rows are scoped by, with the tenant. -/
abbrev TenantFilter := Option (String × Int)

def tenantCompare (tenant : TenantFilter) : List UnresolvedCompare :=
  tenant.toList.map fun (field, id) => ⟨field, .i64 id⟩

/-! ### Forms -/

/-- A form, read as a map. -/
abbrev FormData := String → Option String

/-- Of repeated keys, the last one counts. -/
def formData (pairs : List (String × String)) : FormData := fun name => pairs.reverse.lookup name

/-- The value of a field, or the message of its error; `none` where the source has `unreachable!`. -/
def parseFieldValue [Rest.Parse] (field : FieldMeta) (raw : Option String) : Option (Except String Value) :=
  if field.kind = .boolean then
    match raw with
    | some val => if val ≠ "" then some (.ok (.bool true)) else some (.ok (if field.nullable then .null else .bool false))
    | none => some (.ok (if field.nullable then .null else .bool false))
  else
    let raw := raw.getD ""
    if raw = "" then
      if field.nullable then some (.ok .null) else some (.error ("Field '" ++ field.name ++ "' is required."))
    else
      let read (value : Option Value) (what : String) : Option (Except String Value) :=
        some (match value with
          | some v => .ok v
          | none => .error ("Field '" ++ field.name ++ "' must be " ++ what))
      match field.kind with
      | .char | .text | .email | .url | .slug | .ip | .binary | .json | .fileField => some (.ok (.text raw))
      | .integer | .bigInt => read ((Text.parseSigned (2 ^ 63) raw.toList).map .i64) "a valid integer."
      | .float => read ((Rest.Parse.f64 raw).map .f64) "a valid float."
      | .dateTime => read ((Rest.Parse.naive raw).map .dateTime) "in YYYY-MM-DD HH:MM:SS format."
      | .boolean | .decimal _ _ | .date | .time | .duration | .uuid => none

def parseRelationValue (relation : RelationMeta) (raw : Option String) : Except String Value :=
  let raw := raw.getD ""
  if raw = "" then .ok .null
  else
    match Text.parseSigned (2 ^ 63) raw.toList with
    | some id => .ok (.i64 id)
    | none => .error ("Field '" ++ relation.fieldName ++ "' must be a valid integer ID.")

/-- The errors of a form by the names of their fields. -/
abbrev FormErrors := List (String × String)

/-- What the loops over the fields and over the relations make of a form. -/
def readForm [Rest.Parse] (fields : List FieldMeta) (relations : List RelationMeta) (form : FormData) :
    Option (Except FormErrors (List (String × Value))) := do
  let ofFields ← fields.mapM fun field => (parseFieldValue field (form field.name)).map fun value => (field.name, value)
  let read := ofFields ++ relations.map fun relation =>
    (relation.fieldName, parseRelationValue relation (form relation.fieldName))
  return if read.filterMap Rest.errorOf = [] then .ok (read.filterMap Rest.valueOf) else .error (read.filterMap Rest.errorOf)

def orPanic {α : Type} (result : Option α) : Handler α :=
  Fallible.lift (match result with
    | some a => .ok a
    | none => .error .panic)

/-! ### Methods -/

/-- A page of the changelist. -/
structure ChangelistPage where
  columns : List String
  rows : List (List String)
  pks : List String
  total : Nat
  page : Int
  perPage : Int

namespace ModelAdmin
variable [Fmt] (admin : ModelAdmin)

def effectiveColumns : List String := admin.config.listDisplay.getD admin.fieldNames

/-- `field_values.iter().find(..).map(|(_, v)| v.to_string()).unwrap_or_default()` -/
def shown (values : List (String × Value)) (name : String) : String := ((values.lookup name).map Value.display).getD ""

def rowValues (columns : List String) (values : List (String × Value)) : List String :=
  columns.map fun column =>
    match (admin.config.computedColumns.getD []).lookup column with
    | some f => f values
    | none => shown values column

/-- The order of the changelist: an unknown field is a bad request. -/
def ordered (qs : QuerySet admin.info) : Option String → Except DjangorsError (QuerySet admin.info)
  | none => .ok qs
  | some order => (qs.order order).mapError fun e => match e with
    | .fieldNotFound _ _ => .badRequest (Rest.ormMessage e).toList
    | e => .internal (Rest.ormMessage e).toList

/-- The calls that narrow the rows of the changelist. -/
def narrowings (search : Option String) (filters : List (String × Bool)) (dateRange : Option (DateTime × DateTime))
    (tenant : TenantFilter) : List Narrow :=
  (match search, admin.config.searchFields with
    | some term, some fields => if term ≠ "" then [.filterOrIcontains fields term] else []
    | _, _ => []) ++
  (if filters ≠ [] then [.filter (.and (filters.map fun (field, value) => ⟨field, .bool value⟩))] else []) ++
  (match admin.config.dateHierarchy, dateRange with
    | some field, some (gte, lt) => [.filterDatetimeRange field gte lt]
    | _, _ => []) ++
  (admin.config.baseFilter.toList.map .filter) ++
  (tenantCompare tenant).map fun compare => .filter (.and [compare])

def buildFilteredQueryset (order search : Option String) (filters : List (String × Bool))
    (dateRange : Option (DateTime × DateTime)) (tenant : TenantFilter) : Except DjangorsError (QuerySet admin.info) := do
  let qs ← admin.ordered admin.objects order
  Rest.internal (qs.narrow (admin.narrowings search filters dateRange tenant))

/-- The rows with a key that are in the tenant. -/
def scopedPkQueryset (pk : Int) (tenant : TenantFilter) : Except DjangorsError (QuerySet admin.info) := do
  let pkField ← Rest.orElse admin.info.primaryKey? (.internal "Primary key field not found".toList)
  Rest.internal (admin.objects.filter (.and (⟨pkField.name, .i64 pk⟩ :: tenantCompare tenant)))

/-- The values of rows that `all` returns. -/
def decode (rows : List (Row Cell)) : Handler (List (List (String × Value))) :=
  orFail (Rest.internal (rows.mapM admin.fieldValues))

def changelist (order : Option String) (page perPage : Int) (search : Option String) (filters : List (String × Bool))
    (dateRange : Option (DateTime × DateTime)) (tenant : TenantFilter) : Handler ChangelistPage := do
  let qs ← orFail (admin.buildFilteredQueryset order search filters dateRange tenant)
  let total : Nat ← ask (.count _ qs)
  let offset := ((page - 1) * perPage).bmod (2 ^ 64)
  let rows : List (Row Cell) ← ask (.all _ ((qs.withLimit perPage).withOffset offset))
  let items ← admin.decode rows
  let columns := admin.effectiveColumns
  let pkFieldName := (admin.info.primaryKey?.map (·.name)).getD "id"
  return {
    columns
    rows := items.map (admin.rowValues columns)
    pks := items.map fun values => shown values pkFieldName
    total
    page
    perPage }

def exportCsvRows (order search : Option String) (filters : List (String × Bool))
    (dateRange : Option (DateTime × DateTime)) (tenant : TenantFilter) : Handler (List String × List (List String)) := do
  let qs ← orFail (admin.buildFilteredQueryset order search filters dateRange tenant)
  let rows : List (Row Cell) ← ask (.all _ qs)
  let items ← admin.decode rows
  return (admin.effectiveColumns, items.map (admin.rowValues admin.effectiveColumns))

/-- `QuerySet::get` reads two rows to see whether there is one. -/
def getByPk (pk : Int) (tenant : TenantFilter) : Handler (Option (List (String × Value))) := do
  let qs ← orFail (admin.scopedPkQueryset pk tenant)
  let rows : List (Row Cell) ← ask (.all _ (qs.withLimit 2))
  match ← admin.decode rows with
  | [] => return none
  | [values] => return some values
  | _ => orFail (Rest.internal (.error (.multipleObjectsReturned admin.info.structName)))

/-- The end of both updates. -/
def updateTo (pk : Int) (tenant : TenantFilter) (values : List (String × Value)) : Handler (Except FormErrors Unit) := do
  let qs ← orFail (admin.scopedPkQueryset pk tenant)
  let _ ← ask (.update _ qs (values.map fun (name, value) => (name, .literal value)))
  return .ok ()

variable [Rest.Parse]

def updateFromForm (pk : Int) (form : FormData) (tenant : TenantFilter) : Handler (Except FormErrors Unit) := do
  match ← orPanic (readForm (admin.info.fields.filter (!·.auto)) admin.info.relations form) with
  | .error errors => return .error errors
  | .ok values => admin.updateTo pk tenant values

/-- The fields that a form has a value for are updated, and no relation. -/
def updateFieldsFromForm (pk : Int) (form : FormData) (tenant : TenantFilter) : Handler (Except FormErrors Unit) := do
  match ← orPanic (readForm (admin.info.fields.filter fun f => !f.auto && (form f.name).isSome) [] form) with
  | .error errors => return .error errors
  | .ok [] => return .ok ()
  | .ok values => admin.updateTo pk tenant values

def createFromForm (form : FormData) (tenant : TenantFilter) : Handler (Except FormErrors Int) := do
  match ← orPanic (readForm (admin.info.fields.filter fun f => !(f.auto || f.primaryKey)) admin.info.relations form) with
  | .error errors => return .error errors
  | .ok values =>
    let pk : Int ← ask (.insertRaw admin.info (values ++ tenant.toList.map fun (field, id) => (field, .i64 id)))
    return .ok pk

omit [Rest.Parse]

/-- `QuerySet::first` -/
def first (qs : QuerySet admin.info) : Handler (Option (List (String × Value))) := do
  let rows : List (Row Cell) ← ask (.all _ (qs.withLimit 1))
  return (← admin.decode rows).head?

/-- Whether the row with a key is in the tenant; without one, this is not asked. -/
def isInTenant (pk : Int) (tenant : TenantFilter) : Handler Bool :=
  if tenant.isSome then do
    let qs ← orFail (admin.scopedPkQueryset pk tenant)
    return (← admin.first qs).isSome
  else return true

def deleteByPk (pk : Int) (tenant : TenantFilter) : Handler Bool := do
  if ← admin.isInTenant pk tenant then
    let rows : Nat ← ask (.deleteByPk admin.info pk)
    return 0 < rows
  else return false

/-- The handler of the action `delete_selected`, which passes over errors. -/
def deleteSelected : List Int → Handler Unit
  | [] => return ()
  | pk :: pks => do
    let _ ← attempt (.deleteByPk admin.info pk)
    deleteSelected pks

def actions : List AdminAction :=
  admin.config.actions.getD [] ++
    [{ name := "delete_selected", label := "Delete selected", requiresConfirm := true, handler := admin.deleteSelected }]

end ModelAdmin

end Djangors.Admin
