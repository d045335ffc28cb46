import Djangors.Orm.QuerySet
import Mathlib.Logic.Function.Basic

/-! # Running statements

What the database server does with the statements of the ORM, over tables of rows. A statement that
the server refuses (a constraint, a type, bad syntax) leaves the tables as they were. -/

namespace Djangors.Orm
open Db Sql

/-- The database server: its dialect, the meaning it gives to conditions and arithmetic, the order in
    which it returns rows, the row it stores for an `INSERT` (with the generated key and the defaults of
    the columns left out), and whether it refuses to go from one state of the tables to another. -/
structure Server where
  dialect : Dialect
  interp : Interp SqlOp Cell
  arith : ArithOp → Cell → Cell → Option Cell
  arrange : List (String × Bool) → List (Row Cell) → List (Row Cell)
  arrange_perm : ∀ order rows, (arrange order rows).Perm rows
  complete : Tables Cell → String → Row Cell → Row Cell
  refuses : Tables Cell → Tables Cell → Option String

/-- The value bound to placeholder `n`. Placeholders are numbered in the order of the text
    (`compileAll_params`), so a `?` of SQLite, which is bound by position, takes the same value. -/
def bindAt (binds : List BindValue) (n : Nat) : Option BindValue := binds[n - 1]?

def cellAt (bind : Option BindValue) : Cell := (bind.map BindValue.cell).getD .null

/-- The `WHERE` clause of a statement with the values bound to it. -/
def Select.bound (s : Select) : Where (Option BindValue) := s.where_.map (bindAt (s.params.map Value.toBind))

def Update.bound (u : Update) : Where (Option BindValue) := u.where_.map (bindAt u.binds)

def Delete.bound (s : Delete) : Where (Option BindValue) := s.where_.map (bindAt s.binds)

namespace Server
variable (S : Server) (db : Tables Cell)

/-- Whether a clause selects a row of table `t`. -/
def selects (t : String) : Where (Option BindValue) → Row Cell → Bool
  | .absent, _ => true
  | .cond c, r => (c.map cellAt).holds S.interp db t r
  | .dangling _, _ => false

def syntaxError : OrmError := .query "syntax error"

/-- Puts the rows of table `t` in place, unless the server refuses. -/
def commit (t : String) (rows : List (Row Cell)) : Except OrmError (Tables Cell) :=
  let after := Function.update db t rows
  match S.refuses db after with
  | some message => .error (.query message)
  | none => .ok after

/-- `LIMIT`: Postgres refuses a negative one, SQLite takes it for none. -/
def limited (limit : Option Int) (rows : List (Row Cell)) : Except OrmError (List (Row Cell)) :=
  match limit with
  | none => .ok rows
  | some n =>
    if 0 ≤ n then .ok (rows.take n.toNat)
    else match S.dialect with
      | .postgres => .error (.query "LIMIT must not be negative")
      | .sqlite => .ok rows

def fetch (s : Select) : Except OrmError (List (Row Cell)) :=
  match s.bound with
  | .dangling _ => .error syntaxError
  | w =>
    let rows := S.arrange s.order ((db s.table).filter (S.selects db s.table w))
    S.limited s.limit (rows.drop ((s.offset.getD 0).toNat))

def runDelete (s : Delete) : Except OrmError (Tables Cell × Nat) :=
  match s.bound with
  | .dangling _ => .error syntaxError
  | w => do
    let selected := (db s.table).filter (S.selects db s.table w)
    let after ← S.commit db s.table ((db s.table).filter fun r => !S.selects db s.table w r)
    return (after, selected.length)

/-- The value that an assignment gives to its column in row `r` of table `t`. -/
def assigned (binds : List BindValue) (t : String) (r : Row Cell) : SetRhs → Option Cell
  | .param n => some (cellAt (bindAt binds n))
  | .arith c op n => (c.value [⟨t, r⟩]).bind fun v => S.arith op v (cellAt (bindAt binds n))

/-- The row after the assignments, which all read the row as it was. -/
def assignRow (u : Update) (r : Row Cell) : Option (Row Cell) :=
  u.sets.foldlM (fun r' a => (S.assigned u.binds u.table r a.rhs).map (Row.set r' a.lhs.name)) r

def runUpdate (u : Update) : Except OrmError (Tables Cell × Nat) :=
  if u.sets.isEmpty then .error syntaxError
  else match u.bound with
    | .dangling _ => .error syntaxError
    | w =>
      let selected := (db u.table).filter (S.selects db u.table w)
      match (db u.table).mapM fun r => if S.selects db u.table w r then S.assignRow u r else some r with
      | none => .error (.query "bad arithmetic")
      | some rows => do
        let after ← S.commit db u.table rows
        return (after, selected.length)

/-- The rows that an `INSERT` gives values for. -/
def insertedRows : InsertRows → List (Row Cell)
  | .defaultValues => [[]]
  | .values cols rows => rows.map fun row => cols.zip (row.map BindValue.cell)

/-- The rows that are stored for those of an `INSERT`, each made with the rows before it in place. -/
def completeAll (t : String) : Tables Cell → List (Row Cell) → List (Row Cell)
  | _, [] => []
  | db, given :: rest =>
    let row := S.complete db t given
    row :: completeAll t (Function.update db t (db t ++ [row])) rest

@[simp] theorem completeAll_singleton (t : String) (given : Row Cell) :
    S.completeAll t db [given] = [S.complete db t given] := rfl

/-- Stores the rows of an `INSERT`; what it returns are the rows as stored. -/
def runInsert (s : Insert) : Except OrmError (Tables Cell × List (Row Cell)) := do
  let rows := S.completeAll s.table db (insertedRows s.source)
  let after ← S.commit db s.table (db s.table ++ rows)
  return (after, rows)

/-- Postgres refuses a statement that names a column twice; in SQLite the value that stands first is stored. -/
def runInsertOnce (s : Insert) : Except OrmError (Tables Cell × List (Row Cell)) :=
  match S.dialect, s.source with
  | .postgres, .values cols _ =>
    if cols.Nodup then S.runInsert db s else .error (.query "column specified more than once")
  | _, _ => S.runInsert db s

/-- `row.try_i64(0)?.unwrap_or(0)` on the row that an `INSERT` returns. -/
def returnedPk (column : String) (rows : List (Row Cell)) : Except OrmError Int :=
  match rows.head?.bind (·.lookup column) with
  | some (.i64 pk) => .ok pk
  | some .null | none => .ok 0
  | some _ => .error (.query "mismatched types")

end Server
end Djangors.Orm
