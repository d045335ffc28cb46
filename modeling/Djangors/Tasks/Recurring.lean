import Djangors.Lib.Lines
import Djangors.Lib.Occurrences
import Djangors.Tasks.Queue
import Mathlib.Order.Lattice

/-! # Recurring tasks

The schedulers of `djangors-tasks`: each tick is a transaction that enqueues the due recurring tasks and
moves each to its next occurrence, and each step is one of its statements. -/

namespace Djangors.Tasks
open Db

instance : LinearOrder DateTime := LinearOrder.lift' DateTime.nanos fun t u h => by cases t; cases u; cases h; rfl

/-- A row of `djangors_recurring_task`. -/
structure RecurringTask where
  id : Int
  taskName : String
  payload : String
  cronExpr : String
  nextRunAt : DateTime
  lastRunAt : Option DateTime
  enabled : Bool
deriving DecidableEq, Repr

/-! ### Schedules -/

/-- The `cron` crate: how it reads an expression of six fields, and the first occurrence after a time. -/
structure Cron (Schedule : Type) where
  fromStr : String → Except String Schedule
  after : Schedule → DateTime → Option DateTime

/-- `after` gives the first occurrence after a time. -/
def Cron.Correct {Schedule : Type} (cron : Cron Schedule) (occurs : Schedule → DateTime → Prop) : Prop :=
  ∀ schedule t u, cron.after schedule t = some u → IsNext (occurs schedule) t u

section Schedules
variable {Schedule : Type} (cron : Cron Schedule)

/-- `parse_schedule` -/
def parseSchedule (expression : String) : Except String Schedule :=
  if (Text.splitWhitespace expression.toList).length ≠ 5 then .error "cron expression must contain exactly five fields"
  else cron.fromStr ("0 " ++ expression)

/-- The row that `register_recurring` inserts. -/
def registerRecurring (taskName payload cronExpr : String) (now : DateTime) : Except String RecurringTask :=
  match parseSchedule cron cronExpr with
  | .error e => .error ("invalid cron expression: " ++ e)
  | .ok schedule =>
    match cron.after schedule now with
    | none => .error "cron expression has no future occurrence"
    | some nextRunAt => .ok { id := 0, taskName, payload, cronExpr, nextRunAt, lastRunAt := none, enabled := true }

/-- A due row with its next occurrence. -/
structure Firing where
  row : RecurringTask
  next : DateTime
deriving DecidableEq, Repr

/-- What `tick_recurring_tasks` computes for a due row. -/
def fireRow (row : RecurringTask) : Except String Firing :=
  match parseSchedule cron row.cronExpr with
  | .error e => .error e
  | .ok schedule =>
    match cron.after schedule row.nextRunAt with
    | none => .error "cron has no next occurrence"
    | some next => .ok ⟨row, next⟩

end Schedules

/-! ### Tables -/

abbrev Recurrences := Keyed RecurringTask.id

/-- `INSERT` of a recurring task with a new id. -/
def Recurrences.insert (recurring : Recurrences) (task : RecurringTask) : Recurrences :=
  Keyed.insert recurring (fun id => { task with id := id }) fun _ => rfl

def Firing.advance (firing : Firing) (row : RecurringTask) : RecurringTask :=
  { row with lastRunAt := some firing.row.nextRunAt, nextRunAt := firing.next }

/-- `UPDATE … WHERE id = …` -/
def Recurrences.advance (recurring : Recurrences) (firing : Firing) : Recurrences :=
  Keyed.update recurring firing.row.id firing.advance fun _ => rfl

/-- `ORDER BY next_run_at, id` -/
def RecurringTask.before (task other : RecurringTask) : Bool :=
  task.nextRunAt < other.nextRunAt || task.nextRunAt == other.nextRunAt && task.id ≤ other.id

/-- The `SELECT` of `tick_recurring_tasks`, which skips the rows in `locked`. -/
def dueTasks (recurring : Recurrences) (now : DateTime) (locked : Int → Bool) : List RecurringTask :=
  (recurring.rows.filter fun row => row.enabled && row.nextRunAt ≤ now && !locked row.id).mergeSort RecurringTask.before

structure Tables where
  recurring : Recurrences
  queue : Queue

/-- The `INSERT` and the `UPDATE` of `tick_recurring_tasks` for a row. -/
def Tables.fire (tables : Tables) (firing : Firing) : Tables where
  queue := tables.queue.insert
    (enqueueScheduled firing.row.taskName firing.row.payload firing.row.nextRunAt firing.row.nextRunAt)
  recurring := tables.recurring.advance firing

/-! ### Ticks -/

/-- Where a scheduler stands in `tick_recurring_tasks`: with the advisory lock, with rows to do and rows done,
    or between the `INSERT` and the `UPDATE` of a row. -/
inductive TickPhase where
  | idle
  | ready
  | ticking (version : Nat) (todo : List RecurringTask) (done : List Firing)
  | inserted (version : Nat) (firing : Firing) (todo : List RecurringTask) (done : List Firing)

/-- The lock of a tick: the advisory lock, the lock of a row, or the lock of the whole database. -/
inductive TickLock where
  | advisory
  | row (id : Int)
  | database
deriving DecidableEq, Repr

/-- Whether a lock covers a row, or the key of the advisory lock. -/
def TickLock.covers : TickLock → Option Int → Bool
  | .advisory, key => key == none
  | .row id, key => key == some id
  | .database, _ => true

/-- The committed tables, how many writes have been committed, who holds which lock, and where the schedulers
    stand. -/
structure Ticks (W : Type) where
  tables : Tables
  version : Nat
  locks : List (W × TickLock)
  phase : W → TickPhase

namespace Ticks
variable {W : Type}

def start : Ticks W := ⟨⟨Keyed.empty, Keyed.empty⟩, 0, [], fun _ => .idle⟩

def locked (s : Ticks W) (key : Option Int) : Bool := Locks.locked TickLock.covers s.locks key

variable [DecidableEq W]

def goto (s : Ticks W) (w : W) (phase : TickPhase) : Ticks W := { s with phase := Function.update s.phase w phase }

end Ticks

/-- The locks after a write. On SQLite the first write of a transaction locks the database, and is refused when
    something was committed since its `SELECT`. -/
inductive MayWrite {W : Type} (dialect : Dialect) (s : Ticks W) (w : W) (version : Nat) : List (W × TickLock) → Prop
  | postgres (h : dialect = .postgres) : MayWrite dialect s w version s.locks
  | first (h : dialect = .sqlite) (free : s.locks = []) (current : version = s.version) :
      MayWrite dialect s w version [(w, .database)]
  | again (h : dialect = .sqlite) (locked : (w, .database) ∈ s.locks) : MayWrite dialect s w version s.locks

/-- What a step did: a registration, a statement inside a tick, the end of a tick that fired rows, or the end of a
    tick with an error. -/
inductive TickEvent (W : Type) where
  | registered
  | statement (w : W)
  | ticked (w : W) (firings : List Firing)
  | failed (w : W)

def TickEvent.firings {W : Type} : TickEvent W → List Firing
  | .ticked _ firings => firings
  | _ => []

/-- One statement of `register_recurring` or of a tick; a tick may fail at any of them. -/
inductive TickStep {W Schedule : Type} [DecidableEq W] (dialect : Dialect) (cron : Cron Schedule) (s : Ticks W) :
    TickEvent W → Ticks W → Prop
  | register {taskName payload cronExpr : String} {now : DateTime} {row : RecurringTask}
      (ok : registerRecurring cron taskName payload cronExpr now = .ok row)
      (free : s.locked (some s.tables.recurring.nextId) = false) :
      TickStep dialect cron s .registered
        { s with tables := { s.tables with recurring := s.tables.recurring.insert row }, version := s.version + 1 }
  | lock {w : W} (postgres : dialect = .postgres) (idle : s.phase w = .idle) (free : s.locked none = false) :
      TickStep dialect cron s (.statement w) { s.goto w .ready with locks := (w, .advisory) :: s.locks }
  | selectPostgres {w : W} (ready : s.phase w = .ready) (now : DateTime) :
      TickStep dialect cron s (.statement w)
        { s.goto w (.ticking s.version (dueTasks s.tables.recurring now fun id => s.locked (some id)) []) with
          locks := (dueTasks s.tables.recurring now fun id => s.locked (some id)).map (fun row => (w, .row row.id)) ++
            s.locks }
  | selectSqlite {w : W} (sqlite : dialect = .sqlite) (idle : s.phase w = .idle) (now : DateTime) :
      TickStep dialect cron s (.statement w)
        (s.goto w (.ticking s.version (dueTasks s.tables.recurring now fun _ => false) []))
  | insert {w : W} {version : Nat} {row : RecurringTask} {todo : List RecurringTask} {done : List Firing}
      {firing : Firing} {locks : List (W × TickLock)} (ticking : s.phase w = .ticking version (row :: todo) done)
      (ok : fireRow cron row = .ok firing) (write : MayWrite dialect s w version locks) :
      TickStep dialect cron s (.statement w) { s.goto w (.inserted version firing todo done) with locks := locks }
  | update {w : W} {version : Nat} {firing : Firing} {todo : List RecurringTask} {done : List Firing}
      (inserted : s.phase w = .inserted version firing todo done) :
      TickStep dialect cron s (.statement w) (s.goto w (.ticking version todo (done ++ [firing])))
  | commit {w : W} {version : Nat} {done : List Firing} (ticking : s.phase w = .ticking version [] done) :
      TickStep dialect cron s (.ticked w done)
        { tables := done.foldl Tables.fire s.tables
          version := if done = [] then s.version else s.version + 1
          locks := Locks.release s.locks w
          phase := Function.update s.phase w .idle }
  | fail {w : W} (running : s.phase w ≠ .idle) :
      TickStep dialect cron s (.failed w) { s.goto w .idle with locks := Locks.release s.locks w }

/-- The events of a run of schedulers, and the state they lead to. -/
inductive TickRun {W Schedule : Type} [DecidableEq W] (dialect : Dialect) (cron : Cron Schedule) :
    List (TickEvent W) → Ticks W → Prop
  | start : TickRun dialect cron [] Ticks.start
  | step {events : List (TickEvent W)} {event : TickEvent W} {s t : Ticks W} (earlier : TickRun dialect cron events s)
      (step : TickStep dialect cron s event t) : TickRun dialect cron (events ++ [event]) t

end Djangors.Tasks
