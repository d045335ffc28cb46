import Djangors.Migrations.Plan
import Djangors.Migrations.Runner

/-! # Making migrations

The planning step of `makemigrations` (`djangors-cli/src/commands.rs`), and a project that goes through
it again and again: the snapshot that the last step stored, and the files it has written. -/

namespace Djangors.Migrations
open Db Orm

/-- A migration file: its text, and the operations behind its two sections. -/
structure MigrationFile where
  up : List Operation
  down : List Operation
  body : String
deriving DecidableEq, Repr

/-- The models whose tables the stored snapshot does not have. -/
def newModels (previous current : List ModelSnapshot) : List ModelSnapshot :=
  current.filter fun model => !previous.any (·.tableName == model.tableName)

/-- The columns that a model has gained. -/
def addColumns (old model : ModelSnapshot) (d : Dialect) : Except MigrationError (List Operation) :=
  (model.fields.filter fun field => !old.fields.any (·.columnName == field.columnName)).mapM fun field => do
    let column ← Snapshot.fieldColumn d field
    return .addColumn model.tableName column

def allAddColumns (previous current : List ModelSnapshot) (d : Dialect) : Except MigrationError (List Operation) := do
  let adds ← current.mapM fun model =>
    match previous.find? (·.tableName == model.tableName) with
    | some old => addColumns old model d
    | none => .ok []
  return adds.flatten

/-- The SQL of an operation and of its reverse, with what is put after them. -/
def statementTexts (d : Dialect) (terminator : String) (op : Operation) : Except MigrationError (String × String) := do
  let sql ← op.toSql d
  match op.toDownSql d with
  | some (.ok down) => return (sql ++ terminator, down ++ terminator)
  | some (.error e) => .error e
  | none => return (sql ++ terminator, "")

/-- The text of a file. -/
def migrationBody (texts : List (String × String)) : String :=
  "-- up\n" ++ "\n".intercalate (texts.map (·.1)) ++ "\n-- down\n" ++ "\n".intercalate (texts.map (·.2))

/-- What a step plans: the operations for new models and the added columns, and their texts. -/
def planStep [CaseMap] (previous current : List ModelSnapshot) (d : Dialect) :
    Except MigrationError (List Operation × List (String × String)) := do
  let new := newModels previous current
  let creates ← (if new.isEmpty then .ok [] else buildCreatePlanFromSnapshots new d)
  let createTexts ← creates.mapM (statementTexts d ";")
  let adds ← allAddColumns previous current d
  let addTexts ← adds.mapM (statementTexts d "")
  return (creates ++ adds, createTexts ++ addTexts)

/-- `makemigrations`: the file to write, if there is anything to write. -/
def makemigrations [CaseMap] (check : Bool) (previous current : List ModelSnapshot) (d : Dialect) :
    Except String (Option MigrationFile) :=
  match planStep previous current d with
  | .error e => .error e.message
  | .ok (ops, texts) =>
    if texts.isEmpty then .ok none
    else if check then .error "model changes detected"
    else .ok (some { up := ops, down := ops.filterMap (·.reverse), body := migrationBody texts })

/-- The stored snapshot and the files, in the order in which they were written. -/
structure Project where
  snapshot : List ModelSnapshot
  files : List MigrationFile

namespace Project

def empty : Project := ⟨[], []⟩

/-- One run of `makemigrations`: it stores the snapshot only when it writes a file. -/
def step [CaseMap] (d : Dialect) (p : Project) (current : List ModelSnapshot) : Except String Project := do
  match ← makemigrations false p.snapshot current d with
  | none => return p
  | some file => return { snapshot := current, files := p.files ++ [file] }

/-- One run of `makemigrations` for each revision of the models. -/
def run [CaseMap] (d : Dialect) (p : Project) (revisions : List (List ModelSnapshot)) : Except String Project :=
  revisions.foldlM (step d) p

/-- The up sections of all files. -/
def ups (p : Project) : List Operation := p.files.flatMap (·.up)

end Project

/-- The schema of a list of snapshots: what its plan makes of an empty database. -/
def schemaOf [CaseMap] (R : Ddl.Rules) (snapshots : List ModelSnapshot) (d : Dialect) : Option Ddl.Schema :=
  match buildCreatePlanFromSnapshots snapshots d with
  | .ok ops => applyAll R ∅ ops
  | .error _ => none

end Djangors.Migrations

/-! ## The text of a migration file

What `makemigrations` writes for a plan, and what the runner is to read from it. -/

namespace Djangors.Migrations
open Db

/-- The texts for new tables and for added columns. -/
def fileTexts (d : Dialect) (creates adds : List Operation) : Except MigrationError (List (String × String)) := do
  let createTexts ← creates.mapM (statementTexts d ";")
  let addTexts ← adds.mapM (statementTexts d "")
  return createTexts ++ addTexts

/-- The statements of a plan. -/
def upStatements (d : Dialect) (ops : List Operation) : Except MigrationError (List String) := ops.mapM (·.toSql d)

/-- The statements that reverse a plan. -/
def downStatements (d : Dialect) (ops : List Operation) : Except MigrationError (List String) :=
  (ops.filterMap (·.reverse)).mapM (·.toSql d)

/-- The runner reads these statements in the sections of a file. -/
def ReadsBack (body : String) (ups downs : List String) : Prop :=
  (sectionOf body.toList "up").map statements = some (ups.map String.toList) ∧
    (sectionOf body.toList "down").map statements = some (downs.map String.toList)

/-! ### The command line -/

/-- The loop of `section_up`. -/
def sectionUpLines : Bool → List (List Char) → List (List Char)
  | _, [] => []
  | inUp, line :: lines =>
    if Text.trim line = marker "up" then sectionUpLines true lines
    else if Text.trim line = marker "down" then []
    else if inUp then line :: sectionUpLines inUp lines
    else sectionUpLines inUp lines

/-- `section_up` (`djangors-cli/src/commands.rs`) -/
def sectionUp (text : List Char) : List Char := ['\n'].intercalate (sectionUpLines false (Text.lines text))

/-! ### Markers -/

/-- A line that starts or ends a section. -/
def IsMarker (line : List Char) : Prop := Text.trim line = marker "down" ∨ Text.trim line = marker "up"

instance (line : List Char) : Decidable (IsMarker line) :=
  inferInstanceAs (Decidable (Text.trim line = marker "down" ∨ Text.trim line = marker "up"))

def Marked (text : List Char) : Prop := ∃ line ∈ Text.rawLines text, IsMarker line

instance (text : List Char) : Decidable (Marked text) :=
  inferInstanceAs (Decidable (∃ line ∈ Text.rawLines text, IsMarker line))

/-- How many lines of a text end with `\r\n`. -/
def crlfs (text : List Char) : Nat := (Text.rawLines text).countP Text.endsCrlf

/-- Nothing in the statements looks like a separator: no other semicolon and no whitespace before the last one, no
    marker, and at most one `\r\n` in the up section. -/
structure Separable (ups downs : List (List Char)) : Prop where
  whole : ∀ sql ∈ ups ++ downs, ';' ∉ sql.dropLast ∧ Text.trim sql.dropLast = sql.dropLast
  unmarked : ∀ sql ∈ ups ++ downs, ¬Marked sql
  returns : (ups.map crlfs).sum ≤ 1

end Djangors.Migrations
