import Djangors.Lib.Json
import Djangors.Rest.Cursor

/-! # Serializers

Field sets and serializers (`djangors-rest/src/serializers.rs`), and the errors of a validation
(`djangors-rest/src/validation.rs`). -/

namespace Djangors.Rest
open Orm

/-! ### Errors -/

/-- `entry(field).or_default().extend(messages)` on the sorted entries of a map. -/
def extendField (field : String) (messages : List String) : List (String × List String) → List (String × List String)
  | [] => [(field, messages)]
  | entry :: entries =>
    if field = entry.1 then (field, entry.2 ++ messages) :: entries
    else if field < entry.1 then (field, messages) :: entry :: entries
    else entry :: extendField field messages entries

structure ValidationErrors where
  fields : List (String × List String)
  nonField : List String

namespace ValidationErrors

def new : ValidationErrors := ⟨[], []⟩

def add (errors : ValidationErrors) (field message : String) : ValidationErrors :=
  { errors with fields := extendField field [message] errors.fields }

def merge (errors other : ValidationErrors) : ValidationErrors where
  fields := other.fields.foldl (fun fields (field, messages) => extendField field messages fields) errors.fields
  nonField := errors.nonField ++ other.nonField

def isEmpty (errors : ValidationErrors) : Bool := errors.fields.isEmpty && errors.nonField.isEmpty

/-- `ValidationErrors::from` -/
def ofMap (map : List (String × String)) : ValidationErrors :=
  map.foldl (fun errors (field, message) => errors.add field message) new

end ValidationErrors

/-! ### Values -/

/-- How chrono writes a time of RFC 3339, and how an integer is cast to an `f64`. -/
class Wire extends Parse where
  toRfc3339 : DateTime → String
  f64OfInt : Int → F64

/-- A model: its metadata, its instances, and the values of their fields with their names. -/
structure Model where
  info : ModelMeta
  Instance : Type
  fieldValues : Instance → List (String × Value)

/-- `f64::is_finite` -/
def isFinite : F64 → Bool
  | .num bits _ => bits &&& 0x7ff0000000000000 != 0x7ff0000000000000
  | .nan => false

section Write
variable [Wire]

mutual

def valueToJson : Value → Json F64
  | .i64 n => .int n
  | .f64 x => if isFinite x then .float x else .null
  | .text s => .string s.toList
  | .bool b => .bool b
  | .dateTime t => .string (Wire.toRfc3339 t).toList
  | .null => .null
  | .list items => .array (valuesToJson items)

def valuesToJson : List Value → List (Json F64)
  | [] => []
  | value :: values => valueToJson value :: valuesToJson values

end

def insertValues (values : List (String × Value)) (entries : List (List Char × Json F64)) : List (List Char × Json F64) :=
  values.foldl (fun entries value => Json.insertEntry value.1.toList (valueToJson value.2) entries) entries

/-- The entries of the object that `serialize` makes. -/
def serialize (m : Model) (x : m.Instance) : List (List Char × Json F64) := insertValues (m.fieldValues x) []

end Write

/-! ### Reading a body -/

section Read
variable [Wire]

/-- `Value::get` -/
def getEntry (json : Json F64) (name : String) : Option (Json F64) :=
  match json with
  | .object entries => entries.lookup name.toList
  | _ => none

def asI64 : Json F64 → Option Int
  | .int n => if -2 ^ 63 ≤ n ∧ n < 2 ^ 63 then some n else none
  | _ => none

def asF64 : Json F64 → Option F64
  | .int n => some (Wire.f64OfInt n)
  | .float x => some x
  | _ => none

def asStr : Json F64 → Option String
  | .string s => some (String.ofList s)
  | _ => none

/-- `Debug for FieldKind`, of the kinds that are not supported. -/
def unsupportedKind : FieldKind → String
  | .decimal maxDigits decimalPlaces =>
    "Decimal \x7b max_digits: " ++ toString maxDigits ++ ", decimal_places: " ++ toString decimalPlaces ++ " \x7d"
  | .date => "Date"
  | .time => "Time"
  | .duration => "Duration"
  | .uuid => "Uuid"
  | _ => ""

def invalid (name what : String) : Except String Value := .error ("Field '" ++ name ++ "' must be " ++ what)

/-- An integer, or a text that reads as one. -/
def readI64 (name what : String) (json : Json F64) : Except String Value :=
  match asI64 json with
  | some n => .ok (.i64 n)
  | none =>
    match (asStr json).bind fun s => Text.parseSigned (2 ^ 63) s.toList with
    | some n => .ok (.i64 n)
    | none => invalid name what

def readBool (field : FieldMeta) : Option (Json F64) → Except String Value
  | none | some .null => .ok (if field.nullable then .null else .bool false)
  | some (.bool b) => .ok (.bool b)
  | some (.string s) =>
    if s = "true".toList ∨ s = "1".toList then .ok (.bool true)
    else if s = "false".toList ∨ s = "0".toList then .ok (.bool false)
    else invalid field.name "a valid boolean."
  | some _ => invalid field.name "a valid boolean."

/-- The value of a field, or the message of its error. -/
def readField (field : FieldMeta) (json : Option (Json F64)) : Except String Value :=
  if field.kind = .boolean then readBool field json
  else
    match json with
    | none | some .null =>
      if field.nullable then .ok .null else .error ("Field '" ++ field.name ++ "' is required.")
    | some json =>
      match field.kind with
      | .char | .text | .email | .url | .slug | .ip | .binary | .json | .fileField =>
        match asStr json with
        | some s => .ok (.text s)
        | none => invalid field.name "a string."
      | .integer | .bigInt => readI64 field.name "a valid integer." json
      | .float =>
        match asF64 json with
        | some x => .ok (.f64 x)
        | none =>
          match (asStr json).bind Parse.f64 with
          | some x => .ok (.f64 x)
          | none => invalid field.name "a valid float."
      | .dateTime =>
        match (asStr json).bind fun s => (Parse.rfc3339 s).or (Parse.naive s) with
        | some t => .ok (.dateTime t)
        | none => invalid field.name "in YYYY-MM-DD HH:MM:SS format."
      | .decimal _ _ | .date | .time | .duration | .uuid | .boolean =>
        .error ("Unsupported FieldKind " ++ unsupportedKind field.kind ++ " for field '" ++ field.name ++ "'.")

def readRelation (relation : RelationMeta) : Option (Json F64) → Except String Value
  | none | some .null => .ok .null
  | some json => readI64 relation.fieldName "a valid integer ID." json

/-- What `deserialize_inner` makes of each field and relation. -/
def readFields (m : ModelMeta) (json : Json F64) (partly : Bool) : List (String × Except String Value) :=
  let skipped (name : String) := partly && (getEntry json name).isNone
  (m.fields.filter fun field => !field.auto && !skipped field.name).map (fun field =>
    (field.name, readField field (getEntry json field.name))) ++
  (m.relations.filter fun relation => !skipped relation.fieldName).map fun relation =>
    (relation.fieldName, readRelation relation (getEntry json relation.fieldName))

def errorOf {ε α : Type} : String × Except ε α → Option (String × ε)
  | (name, .error e) => some (name, e)
  | (_, .ok _) => none

def valueOf {ε α : Type} : String × Except ε α → Option (String × α)
  | (name, .ok a) => some (name, a)
  | (_, .error _) => none

/-- `deserialize_inner` -/
def deserializeInner (m : ModelMeta) (json : Json F64) (partly : Bool) :
    Except (List (String × String)) (List (String × Value)) :=
  match json with
  | .object _ =>
    let fields := readFields m json partly
    if fields.filterMap errorOf = [] then .ok (fields.filterMap valueOf) else .error (fields.filterMap errorOf)
  | _ => .error [("non_field_errors", "Expected JSON object")]

end Read

/-! ### Field sets -/

/-- Which fields cross the wire, in each direction. -/
structure FieldSet where
  only : List String := []
  exclude : List String := []
  readOnly : List String := []
  writeOnly : List String := []

namespace FieldSet
variable (fields : FieldSet) (field : String)

def inScope : Bool := if field ∈ fields.exclude then false else fields.only.isEmpty || decide (field ∈ fields.only)

def isReadable : Bool := fields.inScope field && !decide (field ∈ fields.writeOnly)

def isWritable : Bool := fields.inScope field && !decide (field ∈ fields.readOnly)

end FieldSet

/-! ### Serializers -/

/-- A rule for the values of a body: it records what is wrong with them. -/
abbrev Validator := List (String × Value) → ValidationErrors → ValidationErrors

/-- A `ModelSerializer` or a `NestedSerializer`. -/
inductive Serializer : Model → Type 1 where
  | model {m : Model} (fields : FieldSet) (validators : List Validator) : Serializer m
  | nested {m r : Model} (base : Serializer m) (relation : String) (inner : Serializer r) : Serializer m

/-- A related object takes the place of the entry of its relation, when there is one. -/
def replaceEntry (entries : List (List Char × Json F64)) (related : String × Json F64) : List (List Char × Json F64) :=
  if (entries.lookup related.1.toList).isSome then Json.insertEntry related.1.toList related.2 entries else entries

namespace Serializer
variable [Wire] {m r : Model}

/-- The field set in force. -/
def fields {m : Model} : Serializer m → FieldSet
  | model fields _ => fields
  | nested base _ _ => base.fields

/-- `ModelSerializer::to_internal_value`: the errors of a body besides those of its values. -/
def bodyErrors (m : ModelMeta) (fields : FieldSet) (data : Json F64) (partly : Bool) : ValidationErrors :=
  let names : List String := match data with
    | .object entries => entries.map fun entry => String.ofList entry.1
    | _ => []
  let known (name : String) := m.fields.any (·.name == name) || m.relations.any (·.fieldName == name)
  let closed := names.filter fun name => known name && !fields.isWritable name
  let supplied (name : String) := (getEntry data name).any fun json => match json with
    | .null => false
    | _ => true
  let required := (m.fields.filter fun field =>
      !(field.auto || field.primaryKey || field.nullable || !fields.isWritable field.name)).map (·.name) ++
    (m.relations.map (·.fieldName)).filter fields.isWritable
  let missing := if partly then [] else required.filter fun name => !supplied name
  missing.foldl (fun errors name => errors.add name "this field is required")
    (closed.foldl (fun errors name => errors.add name "field is read-only") .new)

/-- `to_representation` -/
def toRepresentation {m : Model} : Serializer m → m.Instance → Json F64
  | model fields _, x => .object ((serialize m x).filter fun entry => fields.isReadable (String.ofList entry.1))
  | nested base _ _, x => base.toRepresentation x

/-- `to_representation_nested`: the related objects by the names of their relations. -/
def toRepresentationNested (s : Serializer m) (x : m.Instance) (related : List (String × Json F64)) : Json F64 :=
  match s.toRepresentation x with
  | .object entries => .object (related.foldl replaceEntry entries)
  | base => base

/-- `NestedSerializer::render` -/
def render (base : Serializer m) (relation : String) (inner : Serializer r) (x : m.Instance) :
    Option r.Instance → Json F64
  | none => base.toRepresentation x
  | some related => base.toRepresentationNested x [(relation, inner.toRepresentation related)]

/-- `to_internal_value` -/
def toInternalValue {m : Model} : Serializer m → Json F64 → Bool → Except ValidationErrors (List (String × Value))
  | model fields _, data, partly =>
    let errors := bodyErrors m.info fields data partly
    match deserializeInner m.info data partly with
    | .error parseErrors => .error (errors.merge (.ofMap parseErrors))
    | .ok values =>
      if errors.isEmpty then .ok (values.filter fun value => fields.isWritable value.1) else .error errors
  | nested base _ _, data, partly => base.toInternalValue data partly

/-- `validate` -/
def validate {m : Model} : Serializer m → List (String × Value) → ValidationErrors → ValidationErrors
  | model _ validators, values, errors => validators.foldl (fun errors validator => validator values errors) errors
  | nested base _ _, values, errors => base.validate values errors

/-- `parse` -/
def parse (s : Serializer m) (data : Json F64) (partly : Bool) : Except ValidationErrors (List (String × Value)) :=
  match s.toInternalValue data partly with
  | .error errors => .error errors
  | .ok values =>
    let errors := s.validate values .new
    if errors.isEmpty then .ok values else .error errors

end Serializer

end Djangors.Rest
