import Djangors.Lib.Program
import Djangors.Rest.Cursor

/-! # Statements of the admin

What the admin site (`djangors-admin`) asks of the database, and what a custom action can ask of it through the ORM.
The entries of the log (`log.rs`) are kept apart from the tables. -/

namespace Djangors.Admin
open Db Http Orm Sql

/-! ### The log -/

def actionAddition : Int := 1
def actionChange : Int := 2
def actionDeletion : Int := 3

structure FieldDiffItem where
  field : String
  old : String
  new : String
deriving DecidableEq

/-- An entry of the log. The differences are stored as their JSON text. -/
structure LogEntry where
  userId : Int
  appLabel : String
  modelName : String
  objectId : Int
  objectRepr : String
  actionFlag : Int
  changeMessage : String
  fieldDiff : Option (List FieldDiffItem)
deriving DecidableEq

/-! ### The database -/

/-- What a statement does to a row. -/
inductive Effect where
  | inserted (m : ModelMeta) (row : Row Cell)
  | changed (m : ModelMeta) (before after : Row Cell)
  | deleted (m : ModelMeta) (row : Row Cell)

/-- `history` lists what has been done to the rows. -/
structure World where
  tables : Tables Cell
  log : List LogEntry
  history : List Effect

/-- The table and the column that two names without quotes stand for in a statement, or the error of the statement. -/
class UnquotedNames where
  resolve : String → String → Except OrmError (String × String)

inductive DatePart where
  | year
  | month
  | day
deriving DecidableEq

/-- A server, with what it makes of a date and of a text column, and whether it refuses an entry of the log. Integers
    are equal when they are the same, no value equals two of them, and the row stored by an `INSERT` has the values that
    it gives. -/
structure AdminServer extends Server where
  datePart : DatePart → Cell → Option Int
  text : Cell → Option String
  refusesLog : LogEntry → Option OrmError
  equal_i64 : ∀ a b, interp.compare .eq (.i64 a) (.i64 b) = some (a == b)
  equal_unique : ∀ v a b, interp.compare .eq v (.i64 a) = some true → interp.compare .eq v (.i64 b) = some true → a = b
  complete_given : ∀ db t (r : Row Cell) c v, r.lookup c = some v → (complete db t r).lookup c = some v

inductive AdminCall where
  | count (m : ModelMeta) (qs : QuerySet m)
  | all (m : ModelMeta) (qs : QuerySet m)
  | update (m : ModelMeta) (qs : QuerySet m) (sets : List (String × SetExpr))
  | delete (m : ModelMeta) (qs : QuerySet m)
  | insertRaw (m : ModelMeta) (values : List (String × Value))
  | deleteByPk (m : ModelMeta) (pk : Int)
  /-- `SELECT COUNT(*) FROM {table} WHERE {column} = $1` -/
  | countWhere (table column : String) (pk : Int)
  /-- `SELECT DISTINCT .. FROM {table} WHERE {column} IS NOT NULL ..` -/
  | dateParts (table column : String) (year : Option Int) (month : Option Nat)
  /-- `SELECT .. FROM "{table}" WHERE "{column}" = $1` -/
  | children (table column : String) (fields : List String) (pk : Int)
  | saveLog (entry : LogEntry)

namespace AdminCall

abbrev Result : AdminCall → Type
  | count _ _ | update _ _ _ | delete _ _ | deleteByPk _ _ | countWhere _ _ _ => Nat
  | all _ _ => List (Row Cell)
  | insertRaw _ _ => Int
  | dateParts _ _ _ _ => List (Option Int)
  | children _ _ _ _ => List (List (Option String))
  | saveLog _ => Unit

abbrev Answer (call : AdminCall) : Type := Except Stop call.Result

end AdminCall

def stopErr {α : Type} (result : Except OrmError α) : Except Stop α := result.mapError .err

namespace AdminServer
variable (S : AdminServer) (db : Tables Cell)

/-- The rows of a table in which a column equals a key. -/
def holds (table column : String) (pk : Int) (r : Row Cell) : Bool :=
  (Pred.cmp (.column column) .eq (.param (Cell.i64 pk))).holds S.interp db table r

/-- A date part of the value of a column. -/
def part (which : DatePart) (column : String) (r : Row Cell) : Option Int :=
  (r.lookup column).bind (S.datePart which)

/-- Whether the value of a column is not `NULL`. -/
def present (column : String) (r : Row Cell) : Bool := (r.lookup column).any fun v => !S.interp.isNull v

/-- `ORDER BY 1` on distinct values. -/
def inOrder (values : List (Option Int)) : List (Option Int) :=
  values.dedup.mergeSort fun a b => a.elim true fun a => b.any (a ≤ ·)

def dateParts (table column : String) (year : Option Int) (month : Option Nat) : List (Option Int) :=
  let rows := (db table).filter (S.present column)
  match year, month with
  | none, _ => inOrder (rows.map (S.part .year column))
  | some y, none => inOrder ((rows.filter fun r => S.part .year column r == some y).map (S.part .month column))
  | some y, some m =>
    inOrder ((rows.filter fun r => S.part .year column r == some y && S.part .month column r == some (m : Int)).map
      (S.part .day column))

end AdminServer

/-- Stores what a write has made of the tables, with what it has done to their rows. -/
def World.write {α : Type} (w : World) : Except Stop (Tables Cell × List Effect × α) → World × Except Stop α
  | .ok (tables, effects, a) => ({ w with tables, history := w.history ++ effects }, .ok a)
  | .error e => (w, .error e)

/-- The rows that are not what they were. -/
def changes (m : ModelMeta) (before after : List (Row Cell)) : List Effect :=
  ((before.zip after).filter fun (r, r') => r ≠ r').map fun (r, r') => .changed m r r'

namespace AdminCall
variable [Fmt] [UnquotedNames] (S : AdminServer)

def runUpdate (db : Tables Cell) (m : ModelMeta) (qs : QuerySet m) (sets : List (String × SetExpr)) :
    Except Stop (Tables Cell × List Effect × Nat) := stopErr do
  let u ← qs.update S.dialect sets
  let (after, n) ← S.toServer.runUpdate db u
  return (after, changes m (db m.tableName) (after m.tableName), n)

def runDelete (db : Tables Cell) (m : ModelMeta) (s : Delete) : Except Stop (Tables Cell × List Effect × Nat) := stopErr do
  let (after, n) ← S.toServer.runDelete db s
  return (after, ((db s.table).filter (S.selects db s.table s.bound)).map (.deleted m), n)

def runInsert (db : Tables Cell) (m : ModelMeta) (s : Insert) :
    Except Stop (Tables Cell × List Effect × Except Stop Int) := stopErr do
  let (after, rows) ← S.runInsertOnce db s
  return (after, rows.map (.inserted m), stopErr (Server.returnedPk s.returning rows))

/-- Runs a call alone. -/
def exec : (call : AdminCall) → World → World × call.Answer
  | count _ qs, w => (w, stopErr (Rest.count S.toServer w.tables qs))
  | all _ qs, w => (w, stopErr (S.fetch w.tables (qs.select S.dialect)))
  | update m qs sets, w => w.write (runUpdate S w.tables m qs sets)
  | delete m qs, w => w.write (runDelete S w.tables m (qs.delete S.dialect))
  | insertRaw m values, w =>
    -- The row stays when its key cannot be read.
    let (w, result) := w.write ((QuerySet.insertRaw m values).bind (runInsert S w.tables m))
    (w, result.bind id)
  | deleteByPk m pk, w => w.write ((QuerySet.deleteByPk m pk).bind (runDelete S w.tables m))
  | countWhere table column pk, w =>
    (w, stopErr ((UnquotedNames.resolve table column).map fun (t, c) => (w.tables t).countP (S.holds w.tables t c pk)))
  | dateParts table column year month, w =>
    (w, stopErr ((UnquotedNames.resolve table column).map fun (t, c) => S.dateParts w.tables t c year month))
  | children table column fields pk, w =>
    (w, .ok ((S.arrange [] ((w.tables table).filter (S.holds w.tables table column pk))).map fun r =>
      fields.map fun f => (r.lookup f).bind S.text))
  | saveLog entry, w =>
    match S.refusesLog entry with
    | none => ({ w with log := w.log ++ [entry] }, .ok ())
    | some e => (w, .error (.err e))

/-- Runs a call on tables that have the columns of their models: an assignment to another column is refused. -/
def execTable : (call : AdminCall) → World → World × call.Answer
  | update m qs sets, w =>
    if sets.all fun set => decide ((fieldToCol m set.1).name ∈ m.columns) then exec S (update m qs sets) w
    else (w, .error (.err (.query "column does not exist")))
  | call, w => exec S call w

end AdminCall

end Djangors.Admin
