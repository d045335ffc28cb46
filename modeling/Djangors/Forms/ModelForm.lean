import Djangors.Lib.Text
import Djangors.Orm.Derive

/-! # Model forms

The fields of a form (`djangors-forms`: `fields.rs`, `error.rs`), and the form that `#[derive(Model)]` generates
(`djangors-macros/src/model.rs`). -/

namespace Djangors.Forms

/-! ### Fields -/

/-- The fields that a generated form has, with their attributes. -/
inductive FormField where
  | char (maxLength : Option Nat) (required : Bool)
  | integer (min max : Option Int) (required : Bool)
  | boolean (required : Bool)
  | choice (choices : List String) (required : Bool)
deriving DecidableEq, Repr

/-- What a field cleans a raw value to. -/
inductive Cleaned where
  | text (s : String)
  | integer (n : Option Int)
  | bool (b : Bool)
deriving DecidableEq, Repr

abbrev FieldError := List String

def fieldRequired : FieldError := ["This field is required."]

namespace FormField

/-- A raw value that is absent or empty is the field's own empty value, unless the field is required. -/
def present (required : Bool) (empty : Cleaned) (clean : String → Except FieldError Cleaned) :
    Option String → Except FieldError Cleaned
  | none | some "" => if required then .error fieldRequired else .ok empty
  | some s => clean s

/-- `IntegerField::clean` of a text. -/
def cleanInteger (min max : Option Int) (s : String) : Except FieldError Cleaned := do
  match Text.parseSigned (2 ^ 63) s.toList with
  | none => .error ["Enter a whole number."]
  | some val =>
    if let some minimum := min then
      if val < minimum then throw ["Ensure this value is greater than or equal to " ++ toString minimum ++ "."]
    if let some maximum := max then
      if maximum < val then throw ["Ensure this value is less than or equal to " ++ toString maximum ++ "."]
    return .integer (some val)

/-- `clean` -/
def clean : FormField → Option String → Except FieldError Cleaned
  | char maxLength required => present required (.text "") fun s =>
    match maxLength with
    | some limit =>
      if limit < s.length then .error ["Ensure this value has at most " ++ toString limit ++ " characters."] else .ok (.text s)
    | none => .ok (.text s)
  | integer min max required => present required (.integer none) (cleanInteger min max)
  | boolean required => fun raw =>
    let truthy := raw = some "on" ∨ raw = some "true" ∨ raw = some "1"
    if required ∧ ¬truthy then .error fieldRequired else .ok (.bool (decide truthy))
  | choice choices required => present required (.text "") fun s =>
    if s ∈ choices then .ok (.text s)
    else .error ["Select a valid choice. " ++ ", ".intercalate choices ++ " is not one of the available choices."]

end FormField

/-- The errors of a form, by the names of its fields. -/
abbrev FormErrors := List (String × FieldError)

abbrev FormCleaned := List (String × Cleaned)

/-- Cleans each field, and fails with the errors of all. -/
def validate (fields : List (String × FormField)) (data : String → Option String) : Except FormErrors FormCleaned :=
  let results := fields.map fun (name, field) => (name, field.clean (data name))
  let errors : FormErrors := results.filterMap fun
    | (name, .error e) => some (name, e)
    | (_, .ok _) => none
  if errors = [] then
    .ok (results.filterMap fun
      | (name, .ok cleaned) => some (name, cleaned)
      | (_, .error _) => none)
  else .error errors

end Djangors.Forms

namespace Djangors.Orm
open Forms

/-! ### Generated forms -/

namespace Member

/-- The form field of a member. A member that has none is left as it is by a form. -/
def formField? : Member → Option FormField
  | relation r => if r.kind = .manyToMany then none else some (.integer none none true)
  | field f =>
    if f.auto ∨ f.primaryKey ∨ f.fileField then none
    else match f.type with
      | .string => some (match f.choices with
        | some choices => .choice choices (!f.nullable)
        | none => .char f.maxLength (!f.nullable))
      | .i32 | .i64 => some (.integer none none (!f.nullable))
      | .bool => some (.boolean false)
      | _ => none

section Assign
variable {ρ : Type}

/-- `cleaned.unwrap()` -/
def unwrap (hold : Int → Held ρ) : Option Int → Except Stop (Held ρ)
  | some n => .ok (hold n)
  | none => .error .panic

/-- What a member holds after a cleaned value has been assigned to it. -/
def assign (member : Member) (cleaned : Cleaned) : Except Stop (Held ρ) :=
  match member, cleaned with
  | relation _, .integer n => unwrap .int n
  | field f, cleaned =>
    match f.type, cleaned with
    | .i32, .integer n => if f.nullable then .ok (n.elim .absent fun n => .int (asI32 n)) else unwrap (fun n => .int (asI32 n)) n
    | .i64, .integer n => if f.nullable then .ok (n.elim .absent .int) else unwrap .int n
    | .bool, .bool b => .ok (.bool b)
    | _, .text s => .ok (.text s)
    | _, _ => .error .panic
  | _, _ => .error .panic

/-- `Default::default()` of a field; `zeros` are the defaults of dates, times, durations, UUIDs and decimals. A relation
    that has a column has a form field. -/
def defaultHeld (zeros : FieldType → ρ) : Member → Held ρ
  | relation _ => .int 0
  | field f =>
    if f.nullable then .absent
    else match f.type with
      | .string => .text ""
      | .i32 | .i64 => .int 0
      | .f32 | .f64 => .float (.ofBits 0)
      | .bool => .bool false
      | .dateTime => .dateTime ⟨0⟩
      | type => .parsed (zeros type)

end Assign
end Member

/-- The instance with another value in a member. -/
def Object.set {ρ : Type} (object : Object ρ) (ident : String) (held : Held ρ) : Object ρ :=
  object.map fun (name, old) => (name, if name = ident then held else old)

namespace DerivedModel
variable {ρ : Type} (M : DerivedModel)

/-- The members that have a form field. -/
def formMembers : List Member := M.members.filter fun member => member.formField?.isSome

def formFields : List (String × FormField) :=
  M.members.filterMap fun member => member.formField?.map fun field => (member.ident, field)

/-- `validate_form` -/
def validateForm (data : String → Option String) : Except FormErrors FormCleaned := validate M.formFields data

/-- `apply_cleaned_form` -/
def applyCleanedForm (cleaned : FormCleaned) (object : Object ρ) : Except Stop (Object ρ) :=
  M.formMembers.foldlM (fun object member =>
    match cleaned.lookup member.ident with
    | some value => (member.assign value).map fun held => object.set member.ident held
    | none => .error .panic) object

/-- `from_cleaned_form` -/
def fromCleanedForm (zeros : FieldType → ρ) (cleaned : FormCleaned) : Except Stop (Object ρ) :=
  M.modelFields.mapM fun member =>
    if member.formField?.isSome then
      match cleaned.lookup member.ident with
      | some value => (member.assign value).map fun held => (member.ident, held)
      | none => .error .panic
    else .ok (member.ident, member.defaultHeld zeros)

end DerivedModel
end Djangors.Orm
