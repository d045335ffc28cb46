import Djangors.Lib.Lines
import Djangors.Lib.Program
import Mathlib.Data.List.Infix
import Mathlib.Data.List.Nodup
import Mathlib.Data.List.Pairwise

/-! # Running migration files

`migrate_from_dir` and `rollback_from_dir` (`djangors-migrations/src/lib.rs`) as programs of database
statements, and what a run of them is to do. -/

namespace Djangors.Migrations

/-! ### Sections -/

/-- The line that starts a section. -/
def marker (wanted : String) : List Char := "-- ".toList ++ wanted.toList

/-- The offsets between which `section` cuts: the sum of `l.len() + 1` over the lines before. The start is
    there while the wanted section is the current one. -/
def sectionRange (wanted : String) : List (List Char) → Nat → Option Nat → Option (Nat × Option Nat)
  | [], _, start => start.map (·, none)
  | line :: lines, offset, start =>
    let next := offset + Text.size line + 1
    if Text.trim line = marker wanted then sectionRange wanted lines next (some next)
    else if (Text.trim line = marker "down" ∨ Text.trim line = marker "up") ∧ start.isSome then
      start.map (·, some offset)
    else sectionRange wanted lines next start

/-- `section`; it panics when it cuts beyond the end of the text or inside a character. -/
def sectionOf (text : List Char) (wanted : String) : Option (List Char) :=
  match sectionRange wanted (Text.lines text) 0 none with
  | some (start, stop) => Text.slice text start stop
  | none => some []

/-- The statements of a section, each ended by a semicolon again. -/
def statements (section' : List Char) : List (List Char) := (Text.fields ';' section').map (· ++ [';'])

/-! ### Files -/

/-- A file by its name; the text is missing when it cannot be read. -/
structure File where
  name : String
  text : Option (List Char)
deriving DecidableEq, Repr

structure Directory where
  files : List File
  names : (files.map (·.name)).Nodup

/-- `file_stem` of a file with the extension `sql` -/
def File.stem (file : File) : String := String.ofList (file.name.toList.take (file.name.length - 4))

/-- The filter of `migration_files` -/
def File.isMigration (file : File) : Bool :=
  decide (".sql".toList <:+ file.name.toList) && decide (4 < file.name.length) &&
    ((Text.cut 4 file.name.toList).bind (Text.parseUnsigned (2 ^ 32))).isSome

/-- `migration_files` -/
def Directory.migrationFiles (dir : Directory) : List File := dir.files.filter (·.isMigration)

/-- The migration files in the order of their names. -/
def Directory.sorted (dir : Directory) : List File := dir.migrationFiles.mergeSort fun a b => a.name ≤ b.name

/-- `read_to_string` of a file of the directory -/
def Directory.read (dir : Directory) (name : String) : Option (List Char) :=
  (dir.files.find? (·.name == name)).bind (·.text)

/-! ### The database -/

/-- A row of `djangors_migrations`. -/
structure Migration where
  id : Nat
  name : String
deriving DecidableEq, Repr

/-- `djangors_migrations`: `id` counts up, and `name` is `UNIQUE`. -/
structure History where
  rows : List Migration
  nextId : Nat
  increasing : (rows.map (·.id)).Pairwise (· < ·)
  below : ∀ row ∈ rows, row.id < nextId
  names : (rows.map (·.name)).Nodup

namespace History

def empty : History where
  rows := []
  nextId := 1
  increasing := by simp
  below := by simp
  names := by simp

/-- `INSERT` of a name; the server may have used up some ids. -/
def record (history : History) (gap : Nat) (name : String) : Option History :=
  if h : name ∈ history.rows.map (·.name) then none
  else some
    { rows := history.rows ++ [⟨history.nextId + gap, name⟩]
      nextId := history.nextId + gap + 1
      increasing := by
        rw [List.map_append, List.pairwise_append]
        refine ⟨history.increasing, List.pairwise_singleton _ _, fun id hid id' hid' => ?_⟩
        rcases List.mem_map.mp hid with ⟨row, hrow, rfl⟩
        rw [List.mem_singleton.mp hid']
        exact Nat.lt_add_right gap (history.below row hrow)
      below := by
        intro row hrow
        rcases List.mem_append.mp hrow with hrow | hrow
        · have := history.below row hrow
          omega
        · rw [List.mem_singleton.mp hrow]
          exact Nat.lt_succ_self _
      names := by
        rw [List.map_append]
        exact List.nodup_append'.mpr ⟨history.names, List.nodup_singleton _, by simpa using h⟩ }

/-- `DELETE` of a name. -/
def forget (history : History) (name : String) : History where
  rows := history.rows.filter (·.name != name)
  nextId := history.nextId
  increasing := history.increasing.sublist (List.filter_sublist.map _)
  below row hrow := history.below row (List.mem_filter.mp hrow).1
  names := history.names.sublist (List.filter_sublist.map _)

/-- `SELECT name … WHERE name IN (…) ORDER BY id DESC LIMIT …` -/
def recent (history : History) (known : List String) (limit : Nat) : List String :=
  (((history.rows.filter fun row => decide (row.name ∈ known)).mergeSort fun a b => b.id ≤ a.id).take limit).map (·.name)

end History

/-- What the migrations change, and the history if its table is there. -/
structure Database (σ : Type) where
  schema : σ
  history : Option History

/-- The names of the history, in the order of their ids. -/
def Database.names {σ : Type} (db : Database σ) : List String :=
  match db.history with
  | some history => history.rows.map (·.name)
  | none => []

/-- The database as it is committed, and as the open transaction sees it. -/
structure Session (σ : Type) where
  committed : Database σ
  working : Option (Database σ)

/-- A statement of a transaction. -/
inductive Statement where
  | execute (sql : List Char)
  | record (name : String)
  | forget (name : String)
deriving DecidableEq, Repr

inductive DbCall where
  | ensureHistory
  | isApplied (name : String)
  | recent (known : List String) (limit : Nat)
  | begin
  | statement (statement : Statement)
  | commit
  | rollback

/-- An answer is missing when the call fails. -/
abbrev DbCall.Answer : DbCall → Type
  | .isApplied _ => Option Bool
  | .recent _ _ => Option (List String)
  | .ensureHistory | .begin | .statement _ | .commit | .rollback => Option Unit

def DbCall.failed : (call : DbCall) → call.Answer
  | .isApplied _ | .recent _ _ | .ensureHistory | .begin | .statement _ | .commit | .rollback => none

/-- Whether a call fails, and how many ids are used up before it. -/
inductive Fate where
  | fails
  | works (gap : Nat)

instance : Inhabited Fate := ⟨.works 0⟩

section Calls
variable {σ : Type} (server : List Char → σ → Option σ)

/-- A statement on what the transaction sees. The server executes the statements of the files, or refuses them. -/
def Statement.exec (gap : Nat) (db : Database σ) : Statement → Option (Database σ)
  | .execute sql => (server sql db.schema).map ({ db with schema := · })
  | .record name => (db.history.bind (·.record gap name)).map ({ db with history := some · })
  | .forget name => db.history.map fun history => { db with history := some (history.forget name) }

/-- What a call does that does not fail. -/
def DbCall.exec (gap : Nat) (s : Session σ) : (call : DbCall) → Session σ × call.Answer
  | .ensureHistory => ({ s with committed.history := some (s.committed.history.getD .empty) }, some ())
  | .isApplied name => (s, s.committed.history.map fun history => decide (name ∈ history.rows.map (·.name)))
  | .recent known limit => (s, s.committed.history.map (·.recent known limit))
  | .begin => ({ s with working := some s.committed }, some ())
  | .statement stmt =>
    match s.working.bind (stmt.exec server gap) with
    | some db => ({ s with working := some db }, some ())
    | none => (s, none)
  | .commit => (⟨s.working.getD s.committed, none⟩, some ())
  | .rollback => ({ s with working := none }, some ())

/-- A transaction whose end fails is rolled back; any other call that fails does nothing. -/
def exec (fate : Fate) (call : DbCall) (s : Session σ) : Session σ × call.Answer :=
  match fate with
  | .works gap => call.exec server gap s
  | .fails =>
    match call with
    | .commit | .rollback => ({ s with working := none }, none)
    | call => (s, call.failed)

end Calls

/-! ### Runs -/

/-- The errors of a run, and a panic. -/
inductive RunError where
  | query
  | database
  | io
  | nonInvertible (name : String)
  | panicked
deriving DecidableEq, Repr

abbrev Run (α : Type) := Program DbCall.Answer (Except RunError α)

/-- `x?` -/
def Run.andThen {α β : Type} (run : Run α) (next : α → Run β) : Run β :=
  run.bind fun
    | .ok a => next a
    | .error e => .done (.error e)

/-- The statements up to the first that fails. -/
def executeAll : List Statement → Run Unit
  | [] => .done (.ok ())
  | statement :: body => .call (.statement statement) fun
    | some () => executeAll body
    | none => .done (.error .database)

/-- `transaction_conn` -/
def transactionConn (body : List Statement) : Run Unit :=
  .call .begin fun
    | none => .done (.error .database)
    | some () => (executeAll body).bind fun
      | .ok () => .call .commit fun
        | some () => .done (.ok ())
        | none => .done (.error .database)
      | .error e => .call .rollback fun _ => .done (.error e)

/-- The loop of `migrate_from_dir` -/
def migrateFiles : List File → Run Unit
  | [] => .done (.ok ())
  | file :: files => .call (.isApplied file.stem) fun
    | none => .done (.error .query)
    | some true => migrateFiles files
    | some false =>
      match file.text with
      | none => .done (.error .io)
      | some text =>
        match sectionOf text "up" with
        | none => .done (.error .panicked)
        | some up =>
          (transactionConn ((statements up).map .execute ++ [.record file.stem])).andThen fun () => migrateFiles files

/-- `migrate_from_dir`; the directory is missing when it cannot be read. -/
def migrateFromDir (dir : Option Directory) : Run Unit :=
  .call .ensureHistory fun
    | none => .done (.error .query)
    | some () =>
      match dir with
      | none => .done (.error .io)
      | some dir => migrateFiles dir.sorted

/-- The down section that `rollback_from_dir` reads for a name. -/
def downSection (dir : Directory) (name : String) : Except RunError (List Char) :=
  match dir.read (name ++ ".sql") with
  | none => .error (.nonInvertible name)
  | some text =>
    match sectionOf text "down" with
    | none => .error .panicked
    | some down =>
      if Text.trim down = [] ∨ "-- no-down".toList <:+: text then .error (.nonInvertible name) else .ok down

/-- The last loop of `rollback_from_dir` -/
def undoAll : List (String × List Char) → Run Unit
  | [] => .done (.ok ())
  | (name, down) :: downs =>
    (transactionConn ((statements down).map .execute ++ [.forget name])).andThen fun () => undoAll downs

/-- What `rollback_from_dir` does when there are migration files. -/
def rollbackKnown (dir : Directory) (knownNames : List String) (count : Nat) : Run Unit :=
  .call (.recent knownNames count) fun
    | none => .done (.error .query)
    | some names =>
      match names.mapM fun name => (downSection dir name).map (name, ·) with
      | .error e => .done (.error e)
      | .ok downs => undoAll downs

/-- `rollback_from_dir` -/
def rollbackFromDir (dir : Option Directory) (count : Nat) : Run Unit :=
  .call .ensureHistory fun
    | none => .done (.error .query)
    | some () =>
      match dir with
      | none => .done (.error .io)
      | some dir =>
        let knownNames := dir.migrationFiles.map (·.stem)
        if knownNames = [] then .done (.ok ()) else rollbackKnown dir knownNames count

/-! ### What a run is to do -/

/-- A file by its lines: those before a section, its own, and those from the marker that ends it. -/
structure Cut where
  before : List (List Char)
  body : List (List Char)
  after : List (List Char)
deriving DecidableEq, Repr

def cutLines (wanted : String) : List (List Char) → List (List Char) → Option (List (List Char)) → Option Cut
  | [], before, body => body.map (⟨before, ·, []⟩)
  | line :: lines, before, body =>
    if Text.trim line = marker wanted then cutLines wanted lines (before ++ body.getD [] ++ [line]) (some [])
    else
      match body with
      | none => cutLines wanted lines (before ++ [line]) none
      | some body =>
        if Text.trim line = marker "down" ∨ Text.trim line = marker "up" then some ⟨before, body, line :: lines⟩
        else cutLines wanted lines before (some (body ++ [line]))

/-- The section of a file by its lines. -/
def cutOf (text : List Char) (wanted : String) : Option Cut := cutLines wanted (Text.rawLines text) [] none

/-- The statements between the markers. -/
def statementsOf (text : List Char) (wanted : String) : List (List Char) :=
  match cutOf text wanted with
  | some cut => statements cut.body.flatten
  | none => []

/-- Where a line break counts as one byte, these lines end too early; only blanks are behind that place. -/
def FallsOnBlank (lines : List (List Char)) : Prop :=
  ∀ l x, lines.flatten = l ++ x → Text.size l = Text.offset lines → ∀ c ∈ x, Text.IsBlank ';' c

/-- The offsets of a section of the file are right up to blanks. -/
def CutsBlanks (text : List Char) (wanted : String) : Prop :=
  ∀ cut, cutOf text wanted = some cut →
    FallsOnBlank cut.before ∧ (cut.after ≠ [] → FallsOnBlank (cut.before ++ cut.body))

/-- The schema, and the migrations that are in effect in it, in the order in which they were applied. -/
structure Effect (σ : Type) where
  schema : σ
  inEffect : List String

inductive Command where
  | migrate (dir : Option Directory)
  | rollback (dir : Option Directory) (count : Nat)

def Command.run : Command → Run Unit
  | .migrate dir => migrateFromDir dir
  | .rollback dir count => rollbackFromDir dir count

/-- The files that are not in effect yet, in the order of their names. -/
def pending (dir : Directory) (inEffect : List String) : List File :=
  dir.sorted.filter fun file => decide (file.stem ∉ inEffect)

/-- The newest migrations in effect that have a file, the last one first. -/
def newest (dir : Directory) (count : Nat) (inEffect : List String) : List String :=
  (inEffect.filter fun name => decide (name ∈ dir.migrationFiles.map (·.stem))).reverse.take count

section Effects
variable {σ : Type} (server : List Char → σ → Option σ)

/-- The statements one after the other; none may be refused. -/
def script (sqls : List (List Char)) (schema : σ) : Option σ := sqls.foldlM (fun schema sql => server sql schema) schema

/-- The up section of a file takes effect. -/
def Effect.apply (effect : Effect σ) (file : File) : Option (Effect σ) := do
  let text ← file.text
  let schema ← script server (statementsOf text "up") effect.schema
  return ⟨schema, effect.inEffect ++ [file.stem]⟩

/-- The down section of the file of a migration takes it back. -/
def Effect.undo (dir : Directory) (effect : Effect σ) (name : String) : Option (Effect σ) := do
  let text ← dir.read (name ++ ".sql")
  let schema ← script server (statementsOf text "down") effect.schema
  return ⟨schema, effect.inEffect.erase name⟩

/-- Work is done in order, each piece as a whole or not at all, and only an error ends it early. -/
def InOrder {α : Type} (step : Effect σ → α → Option (Effect σ)) (work : List α) (before : Effect σ)
    (result : Except RunError Unit) (after : Effect σ) : Prop :=
  ∃ done rest, work = done ++ rest ∧ done.foldlM step before = some after ∧ (result = .ok () → rest = [])

/-- What a command is to do. -/
def Does (before : Effect σ) (result : Except RunError Unit) (after : Effect σ) : Command → Prop
  | .migrate none | .rollback none _ => result ≠ .ok () ∧ after = before
  | .migrate (some dir) => InOrder (Effect.apply server) (pending dir before.inEffect) before result after
  | .rollback (some dir) count =>
    InOrder (Effect.undo server dir) (newest dir count before.inEffect) before result after

/-- Commands one after the other, with what they are to do. -/
inductive Follows (start : Effect σ) : List (Command × Except RunError Unit) → Effect σ → Prop
  | start : Follows start [] start
  | next {past : List (Command × Except RunError Unit)} {before after : Effect σ} {command : Command}
      {result : Except RunError Unit} (earlier : Follows start past before)
      (does : Does server before result after command) : Follows start (past ++ [(command, result)]) after

/-- Commands that ran one after the other, any call of which may have failed. Each meets a condition when it
    starts. -/
inductive Ran (start : Database σ) (meets : Command → Database σ → Prop) :
    List (Command × Except RunError Unit) → Session σ → Prop
  | start : Ran start meets [] ⟨start, none⟩
  | next {past : List (Command × Except RunError Unit)} {before after : Session σ} {command : Command}
      {result : Except RunError Unit} (earlier : Ran start meets past before) (ok : meets command before.committed)
      (run : command.run.Runs (exec server) before after result) : Ran start meets (past ++ [(command, result)]) after

end Effects

/-- What the history lists as in effect. -/
def Database.effect {σ : Type} (db : Database σ) : Effect σ := ⟨db.schema, db.names⟩

/-- The files that a command will run are cut right up to blanks. -/
def Command.CutsRight {σ : Type} (db : Database σ) : Command → Prop
  | .migrate (some dir) => ∀ file ∈ pending dir db.names, ∀ text, file.text = some text → CutsBlanks text "up"
  | .rollback (some dir) count =>
    ∀ name ∈ newest dir count db.names, ∀ text, dir.read (name ++ ".sql") = some text → CutsBlanks text "down"
  | .migrate none | .rollback none _ => True

end Djangors.Migrations
