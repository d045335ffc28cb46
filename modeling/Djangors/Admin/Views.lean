import Djangors.Admin.ModelAdmin
import Djangors.Guardian.ObjectPermission
import Djangors.Migrations.Plan

/-! # Views of the admin

The permissions (`djangors-admin/src/perms.rs`) and the handlers of the admin site (`changelist.rs`, `edit_view.rs`,
`delete_view.rs`, `action_view.rs`, `forms.rs`, `log.rs`). A reply holds what the handler has read; the texts that the
templates put around it depend on the request and the site. -/

namespace Djangors.Admin
open Db Http Orm
open Migrations (CaseMap contains)

/-! ### Requests and sites -/

structure User where
  id : Int
  isStaff : Bool
  isSuperuser : Bool

/-- What a handler reads of a request: the user (`Auth::from_request`), the path, the query and the form. -/
structure AdminRequest where
  auth : Except DjangorsError User
  app : String
  model : String
  pk : Option Int
  query : String → Option String
  form : Except DjangorsError (List (String × String))

structure TenantScope where
  tenantField : String
  extractTenantId : AdminRequest → Option Int

/-- What `register_with` asserts of a registration. -/
structure Registered (models : List ModelMeta) (admin : ModelAdmin) : Prop where
  model : admin.info ∈ models
  search_fields : ∀ name ∈ admin.config.searchFields.getD [], ∃ f ∈ admin.info.fields, f.name = name ∧
    f.kind ∈ [.char, .text, .email, .url, .slug, .ip]
  list_filter : ∀ name ∈ admin.config.listFilter.getD [], ∃ f ∈ admin.info.fields, f.name = name ∧
    (f.kind = .boolean ∨ f.choices ≠ [])
  date_hierarchy : ∀ name ∈ admin.config.dateHierarchy, ∃ f ∈ admin.info.fields, f.name = name ∧ f.kind = .dateTime
  list_editable : ∀ name ∈ admin.config.listEditable.getD [], ∃ f ∈ admin.info.fields, f.name = name ∧
    f.kind ∈ [.char, .text, .email, .url, .slug, .integer, .bigInt, .float]
  inlines : ∀ inline ∈ admin.config.inlines.getD [], ∃ m, models.find? (·.structName == inline.structName) = some m ∧
    inline.relationField ∈ m.relations.map (·.fieldName) ∧ ∀ name ∈ inline.fields, name ∈ memberNames m

/-- A site, with the registered models, the targets of their relations, the tables of the users and their permissions,
    and the order in which a map by keys is iterated. Each model has its own table. -/
structure Site where
  admins : List ModelAdmin
  tenantScope : Option TenantScope
  models : List ModelMeta
  target : RelationMeta → ModelMeta
  permissions : Guardian.Tables
  iterate : List Int → List Int
  iterate_perm : ∀ keys, (iterate keys).Perm keys
  registered : ∀ admin ∈ admins, Registered models admin
  tables_nodup : (models.map (·.tableName)).Nodup

/-! ### Permissions -/

/-- `Display for AuthError` -/
def authMessage : Auth.AuthError → String
  | .hashing message => "password hashing error: " ++ message
  | .database e => "database error: " ++ Rest.ormMessage e
  | .rateLimited => "too many login attempts, try again later"
  | .accountLocked secs =>
    "account locked due to too many failed login attempts, try again in " ++ toString secs ++ "s"
  | .invalidToken => "invalid or expired token"
  | .mail message => "mail sending error: " ++ message

section Access
variable [CaseMap] (site : Site) (req : AdminRequest)

def actionCodename (m : ModelMeta) (action : String) : String :=
  m.appLabel ++ "." ++ action ++ "_" ++ CaseMap.toLowercase m.structName

/-- `has_perm`, where an error is an internal one. -/
def hasPerm (user : User) (m : ModelMeta) (action : String) : Except DjangorsError Bool :=
  (site.permissions.hasPerm user.id (actionCodename m action)).mapError fun e => .internal (authMessage e).toList

def requireStaff : Except DjangorsError User := do
  let user ← req.auth
  if user.isStaff then return user else .error (.forbidden "staff status required".toList)

def requirePerm (m : ModelMeta) (action : String) : Except DjangorsError User := do
  let user ← requireStaff req
  if user.isSuperuser then return user
  if ← hasPerm site user m action then return user
  .error (.forbidden ("permission '" ++ actionCodename m action ++ "' required").toList)

def resolveTenant (user : User) : Except DjangorsError TenantFilter :=
  if user.isSuperuser then .ok none
  else match site.tenantScope with
    | none => .ok none
    | some scope =>
      match scope.extractTenantId req with
      | some id => .ok (some (scope.tenantField, id))
      | none => .error (.forbidden "no tenant could be resolved for this request".toList)

def findAdmin : Except DjangorsError ModelAdmin :=
  Rest.orElse (site.admins.find? fun a =>
    a.info.appLabel = req.app ∧ CaseMap.toLowercase a.info.structName = req.model) .notFound

/-- A request that has been let in. -/
structure Access where
  admin : ModelAdmin
  user : User
  tenant : TenantFilter

/-- What every handler starts with. -/
def authorize (action : String) : Except DjangorsError Access := do
  let admin ← findAdmin site req
  let user ← requirePerm site req admin.info action
  let tenant ← resolveTenant site req user
  return ⟨admin, user, tenant⟩

/-- The same on a row, whose key is read first. -/
def authorizeRow (action : String) : Except DjangorsError (Access × Int) := do
  let pk ← Rest.orElse req.pk (.badRequest "invalid pk".toList)
  return (← authorize site req action, pk)

/-- Whether a page offers an action. -/
def offers (user : User) (m : ModelMeta) (action : String) : Except DjangorsError Bool :=
  if user.isSuperuser then .ok true else hasPerm site user m action

end Access

/-! ### The log -/

/-- `log_action`, which passes over a log that is not there. -/
def logAction (user : User) (m : ModelMeta) (pk flag : Int) (message : String)
    (fieldDiff : Option (List FieldDiffItem)) : Handler Unit := do
  let entry : LogEntry := {
    userId := user.id
    appLabel := m.appLabel
    modelName := m.structName
    objectId := pk
    objectRepr := m.structName ++ " object (" ++ toString pk ++ ")"
    actionFlag := flag
    changeMessage := message
    fieldDiff }
  match ← attempt (.saveLog entry) with
  | .ok _ => return ()
  | .error e =>
    let message := Rest.ormMessage e
    if contains message "djangors_admin_log" ∧ (contains message "does not exist" ∨ contains message "no such table") then
      return ()
    else orFail (.error (.internal message.toList))

/-! ### Replies -/

inductive Related where
  | mk (appLabel structName fieldName : String) (onDelete : OnDelete) (count : Nat) (nested : List Related)

namespace Related

def structName : Related → String
  | mk _ name _ _ _ _ => name

def onDelete : Related → OnDelete
  | mk _ _ _ onDelete _ _ => onDelete

def count : Related → Nat
  | mk _ _ _ _ count _ => count

/-- Whether the rows stand against the deletion of what they refer to. -/
def isProtecting (related : Related) : Bool := related.onDelete = .protect ∧ 0 < related.count

end Related

structure InlineTable where
  structName : String
  fields : List String
  rows : List (List String)

structure FormPage where
  values : List (String × String)
  errors : FormErrors
  isAdd : Bool
  canDelete : Bool
  inlines : List InlineTable

inductive Reply where
  | redirect (app model : String)
  | changelist (page : ChangelistPage) (dateValues : List Int) (canAdd canChange canDelete : Bool)
  | csv (columns : List String) (rows : List (List String))
  | form (page : FormPage)
  | deleteConfirm (fields : List (String × String)) (related : List Related)
  | confirm (items : List String) (pks : List Int)
  | changelistErrors (errors : List (Int × FormErrors))

/-! ### Related objects -/

section Views
variable [Fmt] [Rest.Parse] [CaseMap] (site : Site)

/-- The relations to the table of a model, with their models. -/
def referring (target : ModelMeta) : List (ModelMeta × RelationMeta) :=
  site.models.flatMap fun m =>
    (m.relations.filter fun r => (site.target r).tableName = target.tableName).map fun r => (m, r)

/-- How a model is asked for what refers to it, with the tables that have been asked about. -/
abbrev Collect := ModelMeta → List String → Handler (List Related × List String)

/-- One level deeper, unless that was the last one or the table has been asked about. -/
def collectNested (nested : Option Collect) : Collect := fun m visited =>
  match nested with
  | some collect => if m.tableName ∈ visited then return ([], visited) else collect m (m.tableName :: visited)
  | none => return ([], visited)

/-- The loop over the relations. -/
def collectLoop (nested : Option Collect) (pk : Int) :
    List (ModelMeta × RelationMeta) → List String → Handler (List Related × List String)
  | [], visited => return ([], visited)
  | (m, relation) :: relations, visited => do
    match ← attempt (.countWhere m.tableName relation.fieldName pk) with
    | .error e =>
      let message := Rest.ormMessage e
      if contains message "does not exist" ∨ contains message "no such table" then
        collectLoop nested pk relations visited
      else orFail (.error (.internal message.toList))
    | .ok (count : Nat) =>
      if count = 0 then collectLoop nested pk relations visited
      else
        let (inner, visited) ← collectNested nested m visited
        let (summaries, visited) ← collectLoop nested pk relations visited
        return (.mk m.appLabel m.structName relation.fieldName relation.onDelete count inner :: summaries, visited)

/-- `collect_related_objects_with_depth`. What is nested is counted by the same key. -/
def collectRelated (pk : Int) : Nat → Collect
  | 0 => fun target visited => collectLoop none pk (referring site target) visited
  | depth + 1 => fun target visited => collectLoop (some (collectRelated pk depth)) pk (referring site target) visited

def collectRelatedObjects (target : ModelMeta) (pk : Int) : Handler (List Related) := do
  return (← collectRelated site pk 2 target []).1

/-- `build_inline_tables` -/
def buildInlineTables (pk : Int) : List InlineConfig → Handler (List InlineTable)
  | [] => return []
  | inline :: inlines => do
    let child ← orFail (Rest.orElse (site.models.find? (·.structName == inline.structName))
      (.internal ("unknown model " ++ inline.structName).toList))
    let rows : List (List (Option String)) ← ask (.children child.tableName inline.relationField inline.fields pk)
    let tables ← buildInlineTables pk inlines
    return ⟨inline.structName, inline.fields, rows.map fun row => row.map (·.getD "-")⟩ :: tables

/-! ### The changelist -/

/-- Midnight of a day of the Gregorian calendar, if chrono has it, and the sum of an instant and a day, which is a panic
    when it is none. -/
class Calendar where
  midnight : Int → Nat → Nat → Option DateTime
  dayLater : DateTime → Option DateTime

structure ChangelistQueryState where
  order : Option String
  search : Option String
  filters : List (String × Bool)
  year : Option Int
  month : Option Nat
  day : Option Nat
  dateRange : Option (DateTime × DateTime)

/-- A parameter that has to read as a number, when it is there. -/
def parseParam {α : Type} (parse : List Char → Option α) (what : String) : Option String → Except DjangorsError (Option α)
  | none => .ok none
  | some s => (Rest.orElse (parse s.toList) (.badRequest ("invalid " ++ what).toList)).map some

/-- The range of a year, a month or a day. -/
def dateRange [Calendar] (year : Int) (month day : Option Nat) : Except Fault (DateTime × DateTime) :=
  let midnight (y : Int) (m d : Nat) (what : String) : Except Fault DateTime :=
    (Rest.orElse (Calendar.midnight y m d) (.badRequest ("invalid " ++ what).toList)).mapError .error
  match month, day with
  | none, _ => do return (← midnight year 1 1 "year", ← midnight (year + 1) 1 1 "year")
  | some m, none => do
    let start ← midnight year m 1 "year/month"
    let finish ← if m = 12 then midnight (year + 1) 1 1 "year/month" else midnight year (m + 1) 1 "year/month"
    return (start, finish)
  | some m, some d => do
    let _ ← midnight year m 1 "year/month"
    let start ← midnight year m d "day"
    match Calendar.dayLater start with
    | some finish => return (start, finish)
    | none => .error .panic

/-- The range of a state, if the model has a date hierarchy and a year is given. -/
def rangeOf [Calendar] (admin : ModelAdmin) (year : Option Int) (month day : Option Nat) :
    Except Fault (Option (DateTime × DateTime)) :=
  match admin.config.dateHierarchy, year with
  | some _, some y => (dateRange y month day).map some
  | _, _ => .ok none

/-- The filters of a query: anything but `true` and `false` is none. -/
def activeFilters (req : AdminRequest) (admin : ModelAdmin) : List (String × Bool) :=
  (admin.config.listFilter.getD []).filterMap fun field =>
    match req.query field with
    | some "true" => some (field, true)
    | some "false" => some (field, false)
    | _ => none

def parseChangelistQueryState [Calendar] (req : AdminRequest) (admin : ModelAdmin) : Except Fault ChangelistQueryState := do
  let year ← (parseParam (Text.parseSigned (2 ^ 31)) "year" (req.query "year")).mapError .error
  let month ← (parseParam (Text.parseUnsigned (2 ^ 32)) "month" (req.query "month")).mapError .error
  let day ← (parseParam (Text.parseUnsigned (2 ^ 32)) "day" (req.query "day")).mapError .error
  let dateRange ← rangeOf admin year month day
  return {
    order := req.query "o"
    search := req.query "q"
    filters := activeFilters req admin
    year
    month
    day
    dateRange }

def changelistPerPage : Int := 100

def parsePage : Option String → Except DjangorsError Int
  | none => .ok 1
  | some s =>
    match Text.parseSigned (2 ^ 63) s.toList with
    | none => .error (.badRequest "invalid page parameter".toList)
    | some p => if p < 1 then .error (.badRequest "page must be >= 1".toList) else .ok p

/-- `date_hierarchy_drilldown_values` -/
def dateHierarchyDrilldownValues (m : ModelMeta) (field : String) (year : Option Int) (month : Option Nat) :
    Handler (List Int) := do
  let values : List (Option Int) ← ask (.dateParts m.tableName field year month)
  -- as i32
  return (values.filterMap id).map (·.bmod (2 ^ 32))

/-- The values that the date hierarchy offers next. They are read, but not shown, below a day. -/
def dateValues (admin : ModelAdmin) (state : ChangelistQueryState) : Handler (List Int) :=
  match admin.config.dateHierarchy with
  | none => return []
  | some field => do
    let values ← dateHierarchyDrilldownValues admin.info field state.year state.month
    return if state.day.isNone then values else []

def adminChangelist [Calendar] (req : AdminRequest) : Handler Reply := do
  let access ← orFail (authorize site req "view")
  let canAdd ← orFail (offers site access.user access.admin.info "add")
  let canChange ← orFail (offers site access.user access.admin.info "change")
  let canDelete ← orFail (offers site access.user access.admin.info "delete")
  let state ← Fallible.lift (parseChangelistQueryState req access.admin)
  let page ← orFail (parsePage (req.query "page"))
  let page ← access.admin.changelist state.order page changelistPerPage state.search state.filters state.dateRange
    access.tenant
  let values ← dateValues access.admin state
  return .changelist page values canAdd canChange canDelete

def adminExportCsv [Calendar] (req : AdminRequest) : Handler Reply := do
  let access ← orFail (authorize site req "view")
  let state ← Fallible.lift (parseChangelistQueryState req access.admin)
  let (columns, rows) ← access.admin.exportCsvRows state.order state.search state.filters state.dateRange access.tenant
  return .csv columns rows

/-- The fields of a form that are to be edited on the changelist: `edit-{pk}-{field}`, the last value for each. -/
def edits (editable : List String) : List (String × String) → Except DjangorsError (List (Int × String × String))
  | [] => .ok []
  | (key, value) :: pairs => do
    match "edit-".toList.isPrefixOf key.toList, (key.toList.drop 5).span (· ≠ '-') with
    | true, (pk, _ :: field) =>
      let pk ← Rest.orElse (Text.parseSigned (2 ^ 63) pk) (.badRequest "invalid pk in edit field".toList)
      let rest ← edits editable pairs
      return if String.ofList field ∈ editable then (pk, String.ofList field, value) :: rest else rest
    | _, _ => edits editable pairs

/-- `by_pk`: the form of a key. -/
def editsOf (edited : List (Int × String × String)) (pk : Int) : FormData :=
  formData ((edited.filter (·.1 = pk)).map (·.2))

/-- The loop over `by_pk`. -/
def saveRows (access : Access) (edited : List (Int × String × String)) : List Int → Handler (List (Int × FormErrors))
  | [] => return []
  | pk :: pks => do
    match ← access.admin.updateFieldsFromForm pk (editsOf edited pk) access.tenant with
    | .ok () =>
      logAction access.user access.admin.info pk actionChange "Changed." none
      saveRows access edited pks
    | .error errors =>
      let rest ← saveRows access edited pks
      return (pk, errors) :: rest

def adminSaveChangelistPost (req : AdminRequest) : Handler Reply := do
  let access ← orFail (authorize site req "change")
  let pairs ← orFail req.form
  let edited ← orFail (edits (access.admin.config.listEditable.getD []) pairs)
  let errors ← saveRows access edited (site.iterate (edited.map (·.1)).dedup)
  return if errors = [] then .redirect req.app req.model else .changelistErrors errors

/-! ### Forms -/

def adminAddGet (req : AdminRequest) : Handler Reply := do
  let _ ← orFail (authorize site req "add")
  return .form ⟨[], [], true, false, []⟩

def adminAddPost (req : AdminRequest) : Handler Reply := do
  let access ← orFail (authorize site req "add")
  let pairs ← orFail req.form
  match ← access.admin.createFromForm (formData pairs) access.tenant with
  | .ok pk =>
    logAction access.user access.admin.info pk actionAddition "Added." none
    return .redirect req.app req.model
  | .error errors => return .form ⟨pairs, errors, true, false, []⟩

/-- The values of a row as texts. -/
def displayed (values : List (String × Value)) : List (String × String) :=
  values.map fun (name, value) => (name, value.display)

def adminChangeGet (req : AdminRequest) : Handler Reply := do
  let (access, pk) ← orFail (authorizeRow site req "change")
  let canDelete ← orFail (offers site access.user access.admin.info "delete")
  match ← access.admin.getByPk pk access.tenant with
  | none => orFail (.error .notFound)
  | some values =>
    let inlines ← buildInlineTables site pk (access.admin.config.inlines.getD [])
    return .form ⟨displayed values, [], false, canDelete, inlines⟩

/-- `==` of two `f64`. -/
def sameF64 : F64 → F64 → Bool
  | .num a _, .num b _ => a = b ∨ (a ||| b) &&& 0x7fffffffffffffff = 0
  | _, _ => false

mutual

/-- `PartialEq for Value` -/
def sameValue : Value → Value → Bool
  | .i64 a, .i64 b => a = b
  | .f64 a, .f64 b => sameF64 a b
  | .text a, .text b => a = b
  | .bool a, .bool b => a = b
  | .dateTime a, .dateTime b => a = b
  | .null, .null => true
  | .list as, .list bs => sameValues as bs
  | _, _ => false

def sameValues : List Value → List Value → Bool
  | [], [] => true
  | a :: as, b :: bs => sameValue a b && sameValues as bs
  | _, _ => false

end

/-- The value that the form has for a field or a relation that it can change. -/
def newValue (m : ModelMeta) (form : FormData) (name : String) : Option Value :=
  match m.field? name with
  | some field =>
    if field.auto || field.primaryKey then none
    else (parseFieldValue field (form name)).bind Except.toOption
  | none => (m.relation? name).bind fun relation => (parseRelationValue relation (form name)).toOption

/-- The differences between the old values and the form. -/
def fieldDiff (m : ModelMeta) (form : FormData) (old : List (String × Value)) : List FieldDiffItem :=
  old.filterMap fun (name, oldValue) =>
    (newValue m form name).bind fun value =>
      if sameValue oldValue value then none else some ⟨name, oldValue.display, value.display⟩

def adminChangePost (req : AdminRequest) : Handler Reply := do
  let (access, pk) ← orFail (authorizeRow site req "change")
  let pairs ← orFail req.form
  let m := access.admin.info
  let old ← access.admin.getByPk pk access.tenant
  match ← access.admin.updateFromForm pk (formData pairs) access.tenant with
  | .ok () =>
    let diff := (old.map (fieldDiff m (formData pairs))).getD []
    logAction access.user m pk actionChange "Changed." (if diff = [] then none else some diff)
    return .redirect req.app req.model
  | .error errors =>
    match ← access.admin.getByPk pk access.tenant with
    | none => orFail (.error .notFound)
    | some values =>
      let kept := values.filter fun (name, _) => (m.field? name).any fun f => f.auto || f.primaryKey
      let canDelete ← orFail (offers site access.user m "delete")
      let inlines ← buildInlineTables site pk (access.admin.config.inlines.getD [])
      return .form ⟨pairs ++ displayed kept, errors, false, canDelete, inlines⟩

/-! ### Deletion -/

def adminDeleteGet (req : AdminRequest) : Handler Reply := do
  let (access, pk) ← orFail (authorizeRow site req "delete")
  match ← access.admin.getByPk pk access.tenant with
  | none => orFail (.error .notFound)
  | some values =>
    let related ← collectRelatedObjects site access.admin.info pk
    return .deleteConfirm (displayed values) related

def adminDeletePost (req : AdminRequest) : Handler Reply := do
  let (access, pk) ← orFail (authorizeRow site req "delete")
  let m := access.admin.info
  let related ← collectRelatedObjects site m pk
  match related.find? (·.isProtecting) with
  | some r => orFail (.error (.badRequest
      ("Cannot delete '" ++ m.structName ++ "' because it is protected by related '" ++ r.structName ++ "'").toList))
  | none =>
    if ← access.admin.deleteByPk pk access.tenant then
      logAction access.user m pk actionDeletion "Deleted." none
      return .redirect req.app req.model
    else orFail (.error .notFound)

/-- The keys that a form selects. -/
def selectedPks : List (String × String) → Except DjangorsError (List Int)
  | [] => .ok []
  | (key, value) :: pairs => do
    if key = "selected" then
      let pk ← Rest.orElse (Text.parseSigned (2 ^ 63) value.toList) (.badRequest "invalid selected pk".toList)
      return pk :: (← selectedPks pairs)
    else selectedPks pairs

def isConfirm (pairs : List (String × String)) : Bool := pairs.any fun (key, value) => key = "confirm" ∧ value = "1"

/-- What a confirmation page lists. -/
def confirmItems (access : Access) : List Int → Handler (List String)
  | [] => return []
  | pk :: pks => do
    let row ← access.admin.getByPk pk access.tenant
    let rest ← confirmItems access pks
    return (row.map fun values => ", ".intercalate (values.map fun (_, v) => v.display)).toList ++ rest

/-- The loop over the confirmed keys; a protected one is passed over. -/
def deleteRows (access : Access) : List Int → Handler Unit
  | [] => return ()
  | pk :: pks => do
    let related ← collectRelatedObjects site access.admin.info pk
    if related.any (·.isProtecting) then deleteRows access pks
    else
      if ← access.admin.deleteByPk pk access.tenant then
        logAction access.user access.admin.info pk actionDeletion "Deleted." none
      deleteRows access pks

def adminBulkDeletePost (req : AdminRequest) : Handler Reply := do
  let access ← orFail (authorize site req "delete")
  let pairs ← orFail req.form
  let pks ← orFail (selectedPks pairs)
  if pks = [] then return .redirect req.app req.model
  if !isConfirm pairs then
    let items ← confirmItems access pks
    return .confirm items pks
  deleteRows site access pks
  return .redirect req.app req.model

/-! ### Bulk actions -/

def logAll (access : Access) (message : String) : List Int → Handler Unit
  | [] => return ()
  | pk :: pks => do
    logAction access.user access.admin.info pk actionChange message none
    logAll access message pks

def adminBulkActionPost (req : AdminRequest) : Handler Reply := do
  let access ← orFail (authorize site req "change")
  let pairs ← orFail req.form
  let actionName := (pairs.lookup "action").getD ""
  let pks ← orFail (selectedPks pairs)
  let action ← orFail (Rest.orElse (access.admin.actions.find? (·.name = actionName))
    (.badRequest "unknown action".toList))
  if action.requiresConfirm && !isConfirm pairs then
    let items ← confirmItems access pks
    return .confirm items pks
  action.handler pks
  logAll access action.label pks
  return .redirect req.app req.model

/-! ### Routes -/

/-- The routes of `AdminSite::urls` that end at a model. -/
inductive Route where
  | changelist
  | exportCsv
  | addGet
  | addPost
  | changeGet
  | changePost
  | deleteGet
  | deletePost
  | bulkDelete
  | saveChangelist
  | bulkAction
deriving DecidableEq

def serve [Calendar] (route : Route) (req : AdminRequest) : Handler Reply :=
  match route with
  | .changelist => adminChangelist site req
  | .exportCsv => adminExportCsv site req
  | .addGet => adminAddGet site req
  | .addPost => adminAddPost site req
  | .changeGet => adminChangeGet site req
  | .changePost => adminChangePost site req
  | .deleteGet => adminDeleteGet site req
  | .deletePost => adminDeletePost site req
  | .bulkDelete => adminBulkDeletePost site req
  | .saveChangelist => adminSaveChangelistPost site req
  | .bulkAction => adminBulkActionPost site req

end Views

end Djangors.Admin
