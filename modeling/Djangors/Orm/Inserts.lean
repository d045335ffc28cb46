import Djangors.Lib.ForEach
import Djangors.Orm.Derive

/-! # Ways to insert instances

The statements that insert the instances of a derived model, as a server runs them: `save` for each, `insert_raw` of each
one's `field_values`, and one `bulk_create`. -/

namespace Djangors.Orm
open Db Sql

/-- A server with what the `INSERT`s of the ORM depend on: the table that a name means which is not quoted (none for a
    reserved word, and Postgres folds it to lower case), the values that may be bound for a column (Postgres refuses a NULL
    of another type), and what a column stores for a value that is given for it. -/
structure InsertServer extends Server where
  unquoted : String → Option String
  binds : String → String → BindValue → Bool
  stores : String → String → Cell → Cell
  complete_given : ∀ db t given c v, given.lookup c = some v → (complete db t given).lookup c = some (stores t c v)

namespace InsertServer
variable (S : InsertServer) (db : Tables Cell)

/-- Runs an `INSERT`. A list of columns must not be empty. -/
def insert (s : Insert) : Except OrmError (Tables Cell × List (Row Cell)) :=
  match s.source with
  | .defaultValues => S.runInsert db s
  | .values [] _ => .error Server.syntaxError
  | .values cols rows =>
    if rows.all fun row => (cols.zip row).all fun p => S.binds s.table p.1 p.2 then S.runInsert db s
    else .error (.query "column is of another type")

end InsertServer

variable {ρ : Type} (S : InsertServer)

namespace DerivedModel
variable (G : TryGet) (T : TextTypes ρ) (M : DerivedModel)

/-- `save` with its table named as the statement names it, without quotes. -/
def saveUnquoted (db : Tables Cell) (now : DateTime) (object : Object ρ) : Tables Cell × Except OrmError (Object ρ) :=
  match S.unquoted M.tableName with
  | none => (db, .error Server.syntaxError)
  | some t =>
    match S.insert db { M.saveStatement T now object with table := t } with
    | .error e => (db, .error e)
    | .ok (after, rows) => (after, Server.fetchOne rows >>= M.fromRow G T)

end DerivedModel

namespace QuerySet
variable (m : ModelMeta) (db : Tables Cell)

/-- `QuerySet::insert_raw` -/
def runInsertRaw (values : List (String × Value)) : Tables Cell × Except Stop Int :=
  match insertRaw m values with
  | .error stop => (db, .error stop)
  | .ok s =>
    match S.insert db s with
    | .error e => (db, .error (.err e))
    | .ok (after, rows) => (after, (Server.returnedPk s.returning rows).mapError .err)

/-- `QuerySet::bulk_create` -/
def runBulkCreate (items : List (List (String × Value))) : Tables Cell × Except Stop (List Int) :=
  match bulkCreate m items with
  | .error stop => (db, .error stop)
  | .ok none => (db, .ok [])
  | .ok (some s) =>
    match S.insert db s with
    | .error e => (db, .error (.err e))
    | .ok (after, rows) => (after, (rows.mapM fun row => Server.returnedPk s.returning [row]).mapError .err)

end QuerySet
end Djangors.Orm
