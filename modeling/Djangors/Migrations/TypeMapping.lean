import Djangors.Orm.Snapshot

/-! # Errors and column types of migrations

`djangors-migrations/src/error.rs` and `type_mapping.rs`. -/

namespace Djangors.Migrations
open Db Orm

/-- The errors of planning. A database error that planning reports is a `ConnectionFailed`. -/
inductive MigrationError where
  | missingMaxLength (field : String)
  | cyclicDependency (models : List String)
  | database (connectionFailed : String)
  | unsupportedOnDialect (operation dialect : String)
deriving DecidableEq, Repr

/-- `to_string` -/
def MigrationError.message : MigrationError → String
  | .missingMaxLength field => "Field " ++ field ++ " is missing max_length attribute"
  | .cyclicDependency models =>
    "Cyclic dependency detected between models: [" ++ ", ".intercalate (models.map fun m => "\"" ++ m ++ "\"") ++ "]"
  | .database message => "Database error: Database connection failed: " ++ message
  | .unsupportedOnDialect operation dialect =>
    "operation " ++ operation ++ " is not supported on dialect " ++ dialect

/-- `sql_type_for` -/
def sqlTypeFor (kind : FieldKind) (maxLength : Option Nat) (auto : Bool) (fieldName : String) :
    Dialect → Except MigrationError String
  | .postgres =>
    match kind with
    | .char | .email | .url | .slug =>
      match maxLength with
      | some n => .ok ("VARCHAR(" ++ toString n ++ ")")
      | none => .error (.missingMaxLength fieldName)
    | .text | .fileField => .ok "TEXT"
    | .integer => .ok (if auto then "SERIAL" else "INTEGER")
    | .bigInt => .ok (if auto then "BIGSERIAL" else "BIGINT")
    | .float => .ok "DOUBLE PRECISION"
    | .decimal maxDigits decimalPlaces =>
      .ok ("NUMERIC(" ++ toString maxDigits ++ ", " ++ toString decimalPlaces ++ ")")
    | .boolean => .ok "BOOLEAN"
    | .date => .ok "DATE"
    | .dateTime => .ok "TIMESTAMPTZ"
    | .time => .ok "TIME"
    | .duration => .ok "INTERVAL"
    | .uuid => .ok "UUID"
    | .ip => .ok "INET"
    | .binary => .ok "BYTEA"
    | .json => .ok "JSONB"
  | .sqlite =>
    match kind with
    | .char | .email | .url | .slug => .ok "TEXT"
    | .text | .fileField => .ok "TEXT"
    | .integer | .bigInt => .ok (if auto then "INTEGER PRIMARY KEY AUTOINCREMENT" else "INTEGER")
    | .float => .ok "REAL"
    | .decimal .. => .ok "NUMERIC"
    | .boolean => .ok "INTEGER"
    | .date | .dateTime | .time | .duration | .uuid | .ip | .json => .ok "TEXT"
    | .binary => .ok "BLOB"

/-- `field_meta_to_sql_type` -/
def fieldMetaToSqlType (field : FieldMeta) (d : Dialect) : Except MigrationError String :=
  sqlTypeFor field.kind field.maxLength field.auto field.name d

end Djangors.Migrations
