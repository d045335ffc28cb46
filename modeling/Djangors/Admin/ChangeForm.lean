import Djangors.Admin.Views

/-! # The change form

The rows of a form (`djangors-admin/src/forms.rs`) and the controls that its template
(`templates/admin/render_form.html`) makes of them, and the inputs of a changelist (`changelist.rs`,
`templates/admin/changelist.html`). -/

namespace Djangors.Admin
open Orm
open Migrations (CaseMap)

/-- The configuration of the forms of a model. -/
structure FormOptions where
  fieldsets : Option (List (String × List String)) := none
  readonlyFields : List String := []
  rawIdFields : List String := []

inductive RowKind where
  | readonly
  | checkbox
  | number
  | text
deriving DecidableEq

structure FormFieldRow where
  kind : RowKind
  name : String
  value : String
  checked : Bool := false
  error : Option String := none
  section_ : Option String
  lookupHref : Option String := none

namespace FormFieldRow

/-- What a browser submits for a row. The token of the form is for the middleware. -/
def control (row : FormFieldRow) : Option (String × String) :=
  match row.kind with
  | .readonly => none
  | .checkbox => if row.checked then some (row.name, "on") else none
  | .number | .text => some (row.name, row.value)

end FormFieldRow

section Rows
variable [CaseMap] (site : Site) (admin : ModelAdmin) (options : FormOptions) (page : FormPage)

/-- The control of a field that can be edited. -/
def fieldRowKind : FieldKind → RowKind
  | .boolean => .checkbox
  | .integer | .bigInt | .float => .number
  | _ => .text

def buildRow (name : String) (section_ : Option String) : Option FormFieldRow :=
  let value := (formData page.values name).getD ""
  match admin.info.field? name with
  | some field =>
    if field.auto || field.primaryKey then
      if page.isAdd then none
      else some { kind := .readonly, name, value, section_ }
    else
      let kind := if name ∈ options.readonlyFields then .readonly else fieldRowKind field.kind
      let checked := kind = .checkbox ∧ (value = "on" ∨ value = "true")
      some { kind, name, value, checked, error := page.errors.lookup name, section_ }
  | none => (admin.info.relation? name).map fun relation =>
      let kind := if name ∈ options.readonlyFields then .readonly else .number
      let target := site.target relation
      let href := "/" ++ target.appLabel ++ "/" ++ CaseMap.toLowercase target.structName ++ "/"
      let lookupHref := if name ∈ options.rawIdFields then some href else none
      { kind, name, value, error := page.errors.lookup name, section_, lookupHref }

/-- `render_form`: the rows, those of the fieldsets first. -/
def renderForm : List FormFieldRow :=
  match options.fieldsets with
  | some fieldsets =>
    let ofSections := fieldsets.flatMap fun (title, names) =>
      names.filterMap fun name => buildRow site admin options page name (some title)
    let others := admin.fieldNames.filter fun name => name ∉ fieldsets.flatMap (·.2)
    ofSections ++ others.filterMap fun name => buildRow site admin options page name none
  | none => admin.fieldNames.filterMap fun name => buildRow site admin options page name none

/-- What a browser submits for a form that nobody has touched. -/
def controls : List (String × String) := (renderForm site admin options page).filterMap (·.control)

end Rows

/-! ### The changelist -/

/-- The name of the input of a cell. -/
def editName (pk name : String) : String := "edit-" ++ pk ++ "-" ++ name

/-- The inputs of the cells that can be edited. The first cell of a row is a link. -/
def editInputs (admin : ModelAdmin) (page : ChangelistPage) : List (String × String) :=
  page.rows.zipIdx.flatMap fun (row, rowIndex) =>
    row.zipIdx.filterMap fun (cell, i) =>
      let colName := page.columns.getD i ""
      if i ≠ 0 ∧ colName ∈ admin.config.listEditable.getD [] then
        some (editName (page.pks.getD rowIndex "") colName, cell)
      else none

end Djangors.Admin
