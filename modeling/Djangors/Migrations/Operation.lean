import Djangors.Lib.Ddl
import Djangors.Migrations.TypeMapping

/-! # Operations

`djangors-migrations/src/operation.rs`, and what the server reads in the SQL of an operation. -/

namespace Djangors.Migrations
open Db

abbrev ForeignKeyRef := Ddl.Reference

/-- Definition of a table column. -/
structure ColumnDef where
  name : String
  nullable : Bool
  sqlType : String
  primaryKey : Bool
  unique : Bool
  defaultSql : Option String
  references : Option ForeignKeyRef
deriving DecidableEq, Repr

/-- A step of a migration plan. -/
inductive Operation where
  | createTable (tableName : String) (columns : List ColumnDef) (checkConstraints : List String)
  | addColumn (tableName : String) (column : ColumnDef)
  | dropColumn (tableName columnName : String)
  | alterColumnType (tableName columnName newSqlType : String)
  | renameColumn (tableName oldName newName : String)
  | dropTable (tableName : String)
  | createIndex (indexName tableName : String) (columns : List String)
  | dropIndex (indexName : String)
deriving DecidableEq, Repr

/-! ### SQL -/

/-- `text.contains(part)` -/
def contains (text part : String) : Bool := decide (part.toList <:+: text.toList)

def referencesSql : Option ForeignKeyRef → String
  | none => ""
  | some r => " REFERENCES \"" ++ r.table ++ "\"(\"" ++ r.column ++ "\") ON DELETE " ++ r.onDelete

def defaultSqlClause : Option String → String
  | none => ""
  | some default => " DEFAULT " ++ default

/-- `column_sql` -/
def columnSql (col : ColumnDef) : String :=
  let sql := "\"" ++ col.name ++ "\" " ++ col.sqlType
  if contains col.sqlType "PRIMARY KEY" then sql ++ defaultSqlClause col.defaultSql ++ referencesSql col.references
  else
    sql ++ (if col.nullable then "" else " NOT NULL") ++ (if col.primaryKey then " PRIMARY KEY" else "") ++
      (if col.unique && !col.primaryKey then " UNIQUE" else "") ++ defaultSqlClause col.defaultSql ++
      referencesSql col.references

namespace Operation

/-- `to_sql` -/
def toSql (d : Dialect) : Operation → Except MigrationError String
  | .createTable tableName columns checkConstraints =>
    .ok ("CREATE TABLE IF NOT EXISTS \"" ++ tableName ++ "\" (\n    " ++ ",\n    ".intercalate (columns.map columnSql) ++
      "\n" ++ String.join (checkConstraints.map fun ck => ",\n    " ++ ck) ++ "\n);")
  | .addColumn tableName column => .ok ("ALTER TABLE \"" ++ tableName ++ "\" ADD COLUMN " ++ columnSql column ++ ";")
  | .dropColumn tableName columnName =>
    .ok ("ALTER TABLE \"" ++ tableName ++ "\" DROP COLUMN \"" ++ columnName ++ "\";")
  | .alterColumnType tableName columnName newSqlType =>
    match d with
    | .postgres =>
      .ok ("ALTER TABLE \"" ++ tableName ++ "\" ALTER COLUMN \"" ++ columnName ++ "\" TYPE " ++ newSqlType ++
        " USING \"" ++ columnName ++ "\"::" ++ newSqlType ++ ";")
    | .sqlite => .error (.unsupportedOnDialect "AlterColumnType" "Sqlite")
  | .renameColumn tableName oldName newName =>
    .ok ("ALTER TABLE \"" ++ tableName ++ "\" RENAME COLUMN \"" ++ oldName ++ "\" TO \"" ++ newName ++ "\";")
  | .dropTable tableName => .ok ("DROP TABLE \"" ++ tableName ++ "\";")
  | .createIndex indexName tableName columns =>
    .ok ("CREATE INDEX IF NOT EXISTS \"" ++ indexName ++ "\" ON \"" ++ tableName ++ "\" (" ++
      ", ".intercalate (columns.map fun c => "\"" ++ c ++ "\"") ++ ");")
  | .dropIndex indexName => .ok ("DROP INDEX IF EXISTS \"" ++ indexName ++ "\";")

/-- The mechanically safe reverse operation, if one exists. -/
def reverse : Operation → Option Operation
  | .createTable tableName _ _ => some (.dropTable tableName)
  | .addColumn tableName column => some (.dropColumn tableName column.name)
  | .renameColumn tableName oldName newName => some (.renameColumn tableName newName oldName)
  | .dropColumn .. | .alterColumnType .. | .dropTable .. => none
  | .createIndex indexName _ _ => some (.dropIndex indexName)
  | .dropIndex _ => none

/-- `to_down_sql` -/
def toDownSql (d : Dialect) (op : Operation) : Option (Except MigrationError String) := op.reverse.map (·.toSql d)

end Operation

/-! ### What the server reads -/

/-- The type that a type text stands for, and whether the server generates the values of the column. -/
def readType : String → String × Bool
  | "SERIAL" => ("INTEGER", true)
  | "BIGSERIAL" => ("BIGINT", true)
  | "INTEGER PRIMARY KEY AUTOINCREMENT" => ("INTEGER", true)
  | sqlType => (sqlType, false)

/-- The column that the server makes of `columnSql`. A primary key and a generated column are never
    NULL. -/
def ColumnDef.column (c : ColumnDef) : Ddl.Column :=
  let key := contains c.sqlType "PRIMARY KEY"
  let (type, generated) := readType c.sqlType
  { type, generated
    notNull := key || !c.nullable || c.primaryKey || generated
    primaryKey := key || c.primaryKey
    unique := !key && c.unique && !c.primaryKey
    default := c.defaultSql
    references := c.references }

def ColumnDef.entry (c : ColumnDef) : Ddl.Entry := ⟨c.name, c.column⟩

/-- The statement that the server reads in the SQL of an operation. -/
def Operation.statement : Operation → Ddl.Statement
  | .createTable tableName columns checkConstraints =>
    .createTable tableName (columns.map (·.entry)) checkConstraints
  | .addColumn tableName column => .addColumn tableName column.name column.column
  | .dropColumn tableName columnName => .dropColumn tableName columnName
  | .alterColumnType tableName columnName newSqlType =>
    .alterType tableName columnName (readType newSqlType).1 (readType newSqlType).2
  | .renameColumn tableName oldName newName => .renameColumn tableName oldName newName
  | .dropTable tableName => .dropTable tableName
  | .createIndex indexName tableName columns => .createIndex indexName tableName columns
  | .dropIndex indexName => .dropIndex indexName

/-- The reverse of an operation takes its statement back. -/
theorem Operation.reverse_statement (op : Operation) : op.reverse.map (·.statement) = op.statement.undo := by
  cases op <;> rfl

/-- The servers of the two dialects, by the casts that Postgres has and by the columns a `CHECK` reads.
    SQLite has no `ALTER COLUMN … TYPE`. -/
def serverRules (casts mentions : String → String → Bool) : Dialect → Ddl.Rules
  | .postgres => ⟨true, true, true, casts, mentions⟩
  | .sqlite => ⟨false, false, false, fun _ _ => false, mentions⟩

/-- Applies operations one after the other. -/
def applyAll (R : Ddl.Rules) (s : Ddl.Schema) (ops : List Operation) : Option Ddl.Schema :=
  R.run s (ops.map (·.statement))

end Djangors.Migrations
