import Djangors.Http.Dispatch
import Djangors.Lib.Base64
import Djangors.Lib.Lines
import Djangors.Orm.Server

/-! # Cursor pagination

Cursors (`djangors-core/src/pagination.rs`), and what the list endpoints (`djangors-rest/src/viewsets.rs`) do with the
parameters of a request and with a cursor. -/

namespace Djangors.Rest
open Db Http Orm Sql

/-! ### Cursors -/

/-- `encode_cursor` -/
def encodeCursor (pk : Int) (orderValue : Option String) : String :=
  String.ofList (Base64.encode (Text.bytes (toString pk ++ "|" ++ orderValue.getD "")))

inductive CursorError where
  | invalidEncoding
  | invalidFormat
  | invalidPrimaryKey
  deriving DecidableEq, Repr

def CursorError.message : CursorError → String
  | .invalidEncoding => "invalid cursor encoding"
  | .invalidFormat => "invalid cursor format"
  | .invalidPrimaryKey => "invalid cursor primary key"

/-- `decode_cursor` -/
def decodeCursor (cursor : String) : Except CursorError (Int × Option String) :=
  match Base64.decode cursor.toList with
  | none => .error .invalidEncoding
  | some bytes =>
    match Text.ofBytes? bytes with
    | none => .error .invalidFormat
    | some raw =>
      match raw.toList.dropWhile (· ≠ '|') with
      | [] => .error .invalidFormat
      | _ :: value =>
        match Text.parseSigned (2 ^ 63) (raw.toList.takeWhile (· ≠ '|')) with
        | none => .error .invalidPrimaryKey
        | some pk => .ok (pk, if value = [] then none else some (String.ofList value))

/-! ### Query parameters -/

/-- How the standard library and chrono read an `f64`, a time of RFC 3339 and one of `%Y-%m-%d %H:%M:%S`. -/
class Parse where
  f64 : String → Option F64
  rfc3339 : String → Option DateTime
  naive : String → Option DateTime

/-- `parse_filter_value` -/
def parseFilterValue [Parse] (m : ModelMeta) (fieldName rawVal : String) : Option Value :=
  match m.field? fieldName with
  | some field =>
    match field.kind with
    | .integer | .bigInt => (Text.parseSigned (2 ^ 63) rawVal.toList).map .i64
    | .float => (Parse.f64 rawVal).map .f64
    | .boolean =>
      if rawVal = "true" ∨ rawVal = "1" then some (.bool true)
      else if rawVal = "false" ∨ rawVal = "0" then some (.bool false)
      else none
    | .dateTime => ((Parse.rfc3339 rawVal).or (Parse.naive rawVal)).map .dateTime
    | .char | .text | .email | .url | .slug | .ip | .binary | .json | .decimal _ _ | .date | .time | .duration | .uuid
    | .fileField => some (.text rawVal)
  | none =>
    if m.relations.any (·.fieldName == fieldName) then (Text.parseSigned (2 ^ 63) rawVal.toList).map .i64 else none

/-- `Display for OrmError` -/
def ormMessage : OrmError → String
  | .query message => "Database query failed: " ++ message
  | .notFound model => "Model " ++ model ++ " not found"
  | .multipleObjectsReturned model => "Multiple " ++ model ++ " objects returned"
  | .invalidQuery message => "Invalid query: " ++ message
  | .fieldNotFound field model => "Field " ++ field ++ " not found on model " ++ model
  | .unsupportedOnDialect message => "Unsupported on dialect: " ++ message
  | .selectForUpdateOutsideTransaction => "select_for_update cannot be used outside of a transaction"

/-- `map_err(|e| DjangorsError::Internal(e.to_string()))` -/
def internal {α : Type} (result : Except OrmError α) : Except DjangorsError α :=
  result.mapError fun e => .internal (ormMessage e).toList

theorem internal_eq_ok {α : Type} {result : Except OrmError α} {a : α} : internal result = .ok a ↔ result = .ok a := by
  cases result <;> simp [internal, Except.mapError]

def badRequest {α : Type} (message : String) : Except DjangorsError α := .error (.badRequest message.toList)

/-- `ok_or_else` -/
def orElse {α : Type} (o : Option α) (error : DjangorsError) : Except DjangorsError α :=
  match o with
  | some a => .ok a
  | none => .error error

theorem orElse_eq_ok {α : Type} {o : Option α} {e : DjangorsError} {a : α} : orElse o e = .ok a ↔ o = some a := by
  cases o <;> simp [orElse]

/-- The parameters of a request, percent-decoded. -/
abbrev QueryParams := String → Option String

/-- A `FilterBackend` narrows a query set: it adds filters, and it may add to the ordering. -/
structure FilterBackend (m : ModelMeta) where
  filterQueryset : QueryParams → QuerySet m → Except DjangorsError (QuerySet m)
  narrows : ∀ params qs qs', filterQueryset params qs = .ok qs' → ∃ filters orderBy,
    qs' = { qs with filters := qs.filters ++ filters, orderBy := qs.orderBy ++ orderBy }

/-! ### Listing -/

/-- How rows become instances `ι` of the model, and the values of an instance. -/
structure Decoding (ι : Type) where
  fromRow : Row Cell → Except OrmError ι
  fieldValues : ι → List (String × Value)

section List
variable [Fmt] [Parse] {m : ModelMeta}

/-- One turn of the loop over the filterable fields. -/
def applyFilter (params : QueryParams) (qs : QuerySet m) (field : String) : Except DjangorsError (QuerySet m) :=
  match (params field).bind (parseFilterValue m field) with
  | some value => internal (qs.filter (.and [⟨field, value⟩]))
  | none => .ok qs

/-- A query set with the field and the direction that cursors are about. -/
structure Ordered (m : ModelMeta) where
  qs : QuerySet m
  cursorOrdering : Option (String × Bool)

/-- One turn of the loop over the parts of the `ordering` parameter. -/
def applyOrdering (orderableFields : List String) (ordered : Ordered m) (rawPart : List Char) :
    Except DjangorsError (Ordered m) :=
  let part := String.ofList (Text.trim rawPart)
  if part = "" then .ok ordered
  else
    let (cleanField, descending) := stripDash part
    if cleanField ∈ orderableFields then do
      let qs ← internal (ordered.qs.order part)
      return ⟨qs, ordered.cursorOrdering.or ((m.field? cleanField).map fun f => (f.name, descending))⟩
    else .ok ordered

/-- `QuerySet::count` -/
def count (S : Server) (db : Tables Cell) (qs : QuerySet m) : Except OrmError Nat :=
  match (qs.compileSelectWithOrder "COUNT(*)" false S.dialect).bound with
  | .dangling _ => .error Server.syntaxError
  | w => .ok ((db m.tableName).countP (S.selects db m.tableName w))

/-- `QuerySet::all` -/
def all {ι : Type} (S : Server) (db : Tables Cell) (decoding : Decoding ι) (qs : QuerySet m) : Except OrmError (List ι) := do
  let rows ← S.fetch db (qs.select S.dialect)
  rows.mapM decoding.fromRow

/-- The rows after a cursor. -/
def afterCursor (qs : QuerySet m) (orderField pkField : String) (descending : Bool) (rawCursor : String) :
    Except DjangorsError (QuerySet m) := do
  let (cursorPk, rawValue) ← (decodeCursor rawCursor).mapError fun e => .badRequest e.message.toList
  let rawValue ← orElse rawValue (.badRequest "Cursor is missing its ordering value".toList)
  let orderValue ← orElse (parseFilterValue m orderField rawValue) (.badRequest "Cursor ordering value is invalid".toList)
  internal (qs.after orderField orderValue pkField cursorPk descending)

/-- `order_by` of a field in a direction. -/
def orderSpec (field : String) (descending : Bool) : String := if descending then "-" ++ field else field

/-- The query set ordered by the field of the cursor and the primary key at last. -/
def orderLast (qs : QuerySet m) (orderField pkField : String) (descending : Bool) : Except DjangorsError (QuerySet m) := do
  let qs ← internal (qs.order (orderSpec orderField descending))
  internal (qs.order (orderSpec pkField descending))

variable {ι : Type} (decoding : Decoding ι)

/-- The primary key that the cursor of an item carries; 0 when the key is no `i64`. -/
def cursorPk (pkField : String) (item : ι) : Int :=
  match (decoding.fieldValues item).lookup pkField with
  | some (.i64 n) => n
  | _ => 0

/-- The cursor behind an item. -/
def cursorAfter (orderField pkField : String) (item : ι) : String :=
  encodeCursor (cursorPk decoding pkField item) (((decoding.fieldValues item).lookup orderField).map Value.display)

end List
end Djangors.Rest
