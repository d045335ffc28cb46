import Djangors.Orm.Terminal
import Mathlib.Algebra.Ring.Nat

/-! # Derived models

What `#[derive(Model)]` generates (`djangors-macros/src/model.rs`): the metadata, `from_row`, `field_values` and the
model form. -/

namespace Djangors

/-! ### Casts -/

/-- `n as i32` -/
def asI32 (n : Int) : Int := (Int32.ofInt n).toInt

namespace F64

def ofBits (bits : UInt64) : F64 := if h : isNanBits bits = false then .num bits h else .nan

/-- `n / 2 ^ s`, rounded to the nearest integer and half to even. -/
def roundHalfEven (n s : Nat) : Nat :=
  let q := n / 2 ^ s
  let rest := n % 2 ^ s
  if 2 * rest < 2 ^ s ∨ 2 * rest = 2 ^ s ∧ q % 2 = 0 then q else q + 1

/-- The bits of a finite value after `as f32 as f64`. The magnitude is `significand * 2 ^ (place - 1074)`. An `f32` has 24
    bits, none below `2 ^ -149`, and is infinite from `2 ^ 128` on. -/
def bitsAsF32 (sign exponent fraction : Nat) : Nat :=
  let place := exponent - 1
  let significand := if exponent = 0 then fraction else 2 ^ 52 + fraction
  let dropped := max (Nat.log2 significand + 1 - 24) (925 - place)
  let rounded := roundHalfEven significand dropped
  let place := place + dropped
  let length := Nat.log2 rounded + 1
  if rounded = 0 then sign * 2 ^ 63
  else if 1202 < place + length then sign * 2 ^ 63 + 2047 * 2 ^ 52
  else sign * 2 ^ 63 + (place + length - 52) * 2 ^ 52 + (rounded * 2 ^ (53 - length) - 2 ^ 52)

/-- `x as f32 as f64` -/
def asF32 : F64 → F64
  | .nan => .nan
  | .num bits h =>
    let n := bits.toNat
    if n / 2 ^ 52 % 2 ^ 11 = 2047 then .num bits h
    else ofBits (.ofNat (bitsAsF32 (n / 2 ^ 63) (n / 2 ^ 52 % 2 ^ 11) (n % 2 ^ 52)))

end F64
end Djangors

namespace Djangors.Orm
open Db Sql

/-! ### Members -/

/-- The Rust types that a field of a model may have. -/
inductive FieldType where
  | string
  | i32
  | i64
  | f32
  | f64
  | bool
  | dateTime
  | naiveDate
  | naiveTime
  | duration
  | uuid
  | decimal (maxDigits decimalPlaces : Nat)
deriving DecidableEq, Repr

/-- A field with its attributes. -/
structure DerivedField where
  ident : String
  columnName : String
  type : FieldType
  nullable : Bool := false
  primaryKey : Bool := false
  auto : Bool := false
  fileField : Bool := false
  unique : Bool := false
  dbIndex : Bool := false
  default : DefaultValue := .none
  maxLength : Option Nat := none
  choices : Option (List String) := none
  autoNowAdd : Bool := false
  autoNow : Bool := false
  /-- The type is written in one of the ways that `null_kind_tok` compares it with (`String`, `DateTime<Utc>`, …). -/
  knownSpelling : Bool := true

namespace DerivedField

/-- `kind_token` -/
def kindToken (f : DerivedField) : FieldKind :=
  match f.type with
  | .string => if f.fileField then .fileField else if f.maxLength.isSome then .char else .text
  | .i32 => .integer
  | .i64 => .bigInt
  | .f32 | .f64 => .float
  | .bool => .boolean
  | .dateTime => .dateTime
  | .naiveDate => .date
  | .naiveTime => .time
  | .duration => .duration
  | .uuid => .uuid
  | .decimal maxDigits decimalPlaces => .decimal maxDigits decimalPlaces

/-- `field_meta_tokens` -/
def info (f : DerivedField) : FieldMeta where
  name := f.ident
  columnName := f.columnName
  kind := f.kindToken
  nullable := f.nullable
  primaryKey := f.primaryKey
  auto := f.auto
  unique := f.unique || f.primaryKey
  dbIndex := f.dbIndex || f.primaryKey
  default := f.default
  maxLength := f.maxLength
  choices := (f.choices.getD []).map fun s => (s, s)

end DerivedField

inductive Member where
  | field (f : DerivedField)
  | relation (r : RelationMeta)

namespace Member

def ident : Member → String
  | field f => f.ident
  | relation r => r.fieldName

/-- The column of a member. A relation has the column of its name. -/
def columnName : Member → String
  | field f => f.columnName
  | relation r => r.fieldName

/-- A many-to-many relation has no column. -/
def hasColumn : Member → Bool
  | field _ => true
  | relation r => r.kind != .manyToMany

def field? : Member → Option DerivedField
  | field f => some f
  | relation _ => none

def relation? : Member → Option RelationMeta
  | field _ => none
  | relation r => some r

end Member

/-- The struct that a model is derived from. Its columns differ, and one field is the primary key. -/
structure DerivedModel where
  structName : String
  appLabel : String
  tableName : String
  members : List Member
  indexes : List IndexMeta := []
  uniqueTogether : List (List String) := []
  ordering : List String := []
  idents_nodup : (members.map Member.ident).Nodup
  columns_nodup : (members.map Member.columnName).Nodup
  one_pk : ∃ f, (members.filterMap Member.field?).filter (·.primaryKey) = [f]

namespace DerivedModel
variable (M : DerivedModel)

/-- `meta` -/
def info : ModelMeta where
  structName := M.structName
  appLabel := M.appLabel
  tableName := M.tableName
  fields := (M.members.filterMap Member.field?).map DerivedField.info
  relations := M.members.filterMap Member.relation?
  indexes := M.indexes
  uniqueTogether := M.uniqueTogether
  ordering := M.ordering

/-- `model_fields` -/
def modelFields : List Member := M.members.filter Member.hasColumn

end DerivedModel

/-! ### Values -/

/-- What a member of an instance holds. A date, a time, a duration, a UUID and a decimal are held as `ρ`. -/
inductive Held (ρ : Type) where
  | text (s : String)
  | int (n : Int)
  | float (x : F64)
  | bool (b : Bool)
  | dateTime (t : DateTime)
  | parsed (v : ρ)
  /-- `None` -/
  | absent

/-- How dates, times, durations, UUIDs and decimals are read from a text and printed. -/
structure TextTypes (ρ : Type) where
  parse : FieldType → String → Except String ρ
  format : FieldType → ρ → String

section Values
variable {ρ : Type} (G : TryGet) (T : TextTypes ρ)

/-- `field_value_expr` -/
def Held.value (type : FieldType) : Held ρ → Value
  | text s => .text s
  | int n => .i64 n
  | float x => .f64 x
  | bool b => .bool b
  | dateTime t => .dateTime t
  | parsed v => .text (T.format type v)
  | absent => .null

namespace DerivedField
variable (f : DerivedField)

/-- `row.try_.._by_name(column)?`, and `RowNotFound` for a NULL where the type has no `None`. -/
def read {α : Type} (result : Except OrmError (Option α)) (hold : α → Except OrmError (Held ρ)) : Except OrmError (Held ρ) := do
  match ← result with
  | some v => hold v
  | none => if f.nullable then return .absent else .error Server.rowNotFound

/-- The error for a text that is not a value of the type. -/
def parseError (e : String) : OrmError :=
  match f.type with
  | .naiveDate => .invalidQuery ("failed to parse NaiveDate '" ++ f.columnName ++ "'")
  | .naiveTime => .invalidQuery ("failed to parse NaiveTime '" ++ f.columnName ++ "'")
  | .uuid => .invalidQuery ("failed to parse Uuid '" ++ f.columnName ++ "'")
  | _ => .invalidQuery ("failed to parse " ++ f.columnName ++ " field: " ++ e)

/-- `from_row_code` -/
def fromColumn (c : Cell) : Except OrmError (Held ρ) :=
  match f.type with
  | .string => f.read (G.string c) fun s => .ok (.text s)
  | .i64 => f.read (G.tryI64 c) fun n => .ok (.int n)
  | .i32 => f.read (G.tryI64 c) fun n => .ok (.int (asI32 n))
  | .f64 => f.read (G.tryF64 c) fun x => .ok (.float x)
  | .f32 => f.read (G.tryF64 c) fun x => .ok (.float x.asF32)
  | .bool => f.read (G.bool c) fun b => .ok (.bool b)
  | .dateTime => f.read (G.dateTime c) fun t => .ok (.dateTime t)
  | type => f.read (G.string c) fun s =>
    match T.parse type s with
    | .ok v => .ok (.parsed v)
    | .error e => if f.nullable then .ok .absent else .error (f.parseError e)

end DerivedField

namespace Member

/-- The type that a member is read and printed as. A relation holds the key of its target. -/
def type : Member → FieldType
  | field f => f.type
  | relation _ => .i64

def fromColumn (member : Member) (c : Cell) : Except OrmError (Held ρ) :=
  match member with
  | field f => f.fromColumn G T c
  | relation _ => do
    match ← G.tryI64 c with
    | some n => return .int n
    | none => .error Server.rowNotFound

end Member

/-- A column that is not in the row. -/
def columnNotFound (column : String) : OrmError := .query ("no column found for name: " ++ column)

/-- An instance of a model: what its members hold, by their names. -/
abbrev Object (ρ : Type) := List (String × Held ρ)

/-- A member of `from_row_assignments`. -/
def Member.fromRow (member : Member) (r : Row Cell) : Except OrmError (String × Held ρ) :=
  match r.lookup member.columnName with
  | none => .error (columnNotFound member.columnName)
  | some c => (member.fromColumn G T c).map fun held => (member.ident, held)

namespace DerivedModel
variable (M : DerivedModel)

/-- `from_row` -/
def fromRow (r : Row Cell) : Except OrmError (Object ρ) := M.modelFields.mapM fun member => member.fromRow G T r

/-- `field_values` -/
def fieldValues (object : Object ρ) : List (String × Value) :=
  M.modelFields.map fun member => (member.ident, ((object.lookup member.ident).getD .absent).value T member.type)

end DerivedModel

/-! ### Saving -/

namespace Member

def knownSpelling : Member → Bool
  | field f => f.knownSpelling
  | relation _ => true

/-- The kind of NULL that `save` binds. -/
def nullKind (member : Member) : NullKind :=
  if member.knownSpelling then
    match member.type with
    | .string => .text
    | .f32 | .f64 => .f64
    | .bool => .bool
    | .dateTime => .dateTime
    | _ => .i64
  else .i64

/-- The database gives an auto field its value. -/
def isAuto : Member → Bool
  | field f => f.auto
  | relation _ => false

/-- `save` stores the time of the call in a field with `auto_now_add` or `auto_now`. -/
def stampedOnSave : Member → Bool
  | field f => f.autoNowAdd || f.autoNow
  | relation _ => false

def savedValue (now : DateTime) (object : Object ρ) (member : Member) : Value :=
  if member.stampedOnSave then .dateTime now else ((object.lookup member.ident).getD .absent).value T member.type

end Member

namespace DerivedModel
variable (M : DerivedModel) (S : Server) (db : Tables Cell) (now : DateTime) (object : Object ρ)

def saveFields : List Member := M.modelFields.filter fun member => !member.isAuto

/-- The statement of `save`. -/
def saveStatement : Insert where
  table := M.tableName
  source := .values (M.saveFields.map Member.columnName)
    [M.saveFields.map fun member => (member.savedValue T now object).toBindAs member.nullKind]
  returning := "*"

/-- `save`: the tables that it leaves, and the instance of the stored row. -/
def save : Tables Cell × Except OrmError (Object ρ) :=
  if M.saveFields.isEmpty then (db, .error Server.syntaxError)
  else match S.runInsert db (M.saveStatement T now object) with
    | .error e => (db, .error e)
    | .ok (after, rows) => (after, Server.fetchOne rows >>= M.fromRow G T)

end DerivedModel

end Values

end Djangors.Orm
