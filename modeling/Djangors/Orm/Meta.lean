import Djangors.Db

/-! # Model metadata

`djangors-orm/src/meta.rs`. A relation refers to its target model by the name of the target's struct;
the source holds a function that returns the target's metadata. -/

namespace Djangors.Orm

/-- The database field type. -/
inductive FieldKind where
  | char
  | text
  | fileField
  | integer
  | bigInt
  | float
  | decimal (maxDigits decimalPlaces : Nat)
  | boolean
  | date
  | dateTime
  | time
  | duration
  | uuid
  | email
  | url
  | slug
  | ip
  | binary
  | json
deriving DecidableEq, Repr

/-- The default value of a model field. -/
inductive DefaultValue where
  | i64 (v : Int)
  | f64 (v : F64)
  | text (v : String)
  | bool (v : Bool)
  | none
deriving DecidableEq, Repr

/-- Metadata of one model field. -/
structure FieldMeta where
  name : String
  columnName : String
  kind : FieldKind
  nullable : Bool := false
  primaryKey : Bool := false
  auto : Bool := false
  unique : Bool := false
  dbIndex : Bool := false
  default : DefaultValue := .none
  maxLength : Option Nat := .none
  choices : List (String × String) := []
deriving DecidableEq, Repr

/-- The kind of relation between models. -/
inductive RelationKind where
  | foreignKey
  | oneToOne
  | manyToMany
deriving DecidableEq, Repr

/-- Action to take when a referenced object is deleted. -/
inductive OnDelete where
  | cascade
  | protect
  | setNull
  | restrict
  | doNothing
deriving DecidableEq, Repr

/-- Metadata of a relation between two models. -/
structure RelationMeta where
  fieldName : String
  kind : RelationKind
  target : String
  onDelete : OnDelete := .cascade
  relatedName : Option String := none
deriving DecidableEq, Repr

/-- An explicit database index. -/
structure IndexMeta where
  name : String
  fields : List String
deriving DecidableEq, Repr

/-- Runtime metadata of a model. -/
structure ModelMeta where
  structName : String
  appLabel : String
  tableName : String
  fields : List FieldMeta
  relations : List RelationMeta := []
  indexes : List IndexMeta := []
  uniqueTogether : List (List String) := []
  ordering : List String := []
deriving DecidableEq, Repr

namespace ModelMeta

/-- `meta.fields.iter().find(|f| f.name == name)` -/
def field? (m : ModelMeta) (name : String) : Option FieldMeta := m.fields.find? (·.name == name)

/-- `meta.relations.iter().find(|r| r.field_name == name)` -/
def relation? (m : ModelMeta) (name : String) : Option RelationMeta := m.relations.find? (·.fieldName == name)

/-- `meta.fields.iter().find(|f| f.primary_key)` -/
def primaryKey? (m : ModelMeta) : Option FieldMeta := m.fields.find? (·.primaryKey)

/-- The columns of the model's table: one for each field and for each relation that is not
    many-to-many, which has a join table instead. -/
def columns (m : ModelMeta) : List String :=
  m.fields.map (·.columnName) ++ (m.relations.filter (·.kind != .manyToMany)).map (·.fieldName)

end ModelMeta
end Djangors.Orm
