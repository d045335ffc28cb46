import Djangors.Db
import Djangors.Lib.Keyed
import Djangors.Lib.Interleave
import Mathlib.Logic.Function.Basic

/-! # The task queue

The queue of `djangors-tasks` and its workers: each step is one statement of one of them, and a claim is a
transaction of two statements. -/

namespace Djangors.Tasks
open Db

inductive TaskStatus where
  | pending
  | running
  | completed
  | failed
deriving DecidableEq, Repr

/-- A row of `djangors_task_queue`. -/
structure QueuedTask where
  id : Int
  taskName : String
  payload : String
  status : TaskStatus
  attempts : Int
  maxAttempts : Int
  createdAt : DateTime
  scheduledAt : DateTime
  errorMessage : Option String
deriving DecidableEq, Repr

/-! ### The table -/

abbrev Queue := Keyed QueuedTask.id

/-- The columns that an `UPDATE` sets. -/
structure Change where
  status : TaskStatus
  attempts : Option Int
  errorMessage : Option (Option String)

def Change.apply (change : Change) (row : QueuedTask) : QueuedTask :=
  { row with
    status := change.status
    attempts := change.attempts.getD row.attempts
    errorMessage := change.errorMessage.getD row.errorMessage }

/-- `INSERT` of a row with a new id. -/
def Queue.insert (queue : Queue) (task : QueuedTask) : Queue :=
  Keyed.insert queue (fun id => { task with id := id }) fun _ => rfl

/-- `UPDATE … WHERE id = …` -/
def Queue.update (queue : Queue) (id : Int) (change : Change) : Queue := Keyed.update queue id change.apply fun _ => rfl

/-! ### Statements -/

/-- `enqueue_scheduled`; `enqueue` passes the time at which it runs. -/
def enqueueScheduled (taskName payload : String) (createdAt scheduledAt : DateTime) : QueuedTask where
  id := 0
  taskName := taskName
  payload := payload
  status := .pending
  attempts := 0
  maxAttempts := 3
  createdAt := createdAt
  scheduledAt := scheduledAt
  errorMessage := none

/-- `ORDER BY scheduled_at ASC, id ASC` -/
def QueuedTask.before (task other : QueuedTask) : Bool :=
  task.scheduledAt.nanos < other.scheduledAt.nanos ||
    task.scheduledAt == other.scheduledAt && task.id ≤ other.id

/-- The `SELECT` of `claim_next_task`, which skips the rows in `locked`. -/
def nextTask (queue : Queue) (now : DateTime) (locked : Int → Bool) : Option QueuedTask :=
  ((queue.rows.filter fun row =>
    row.status == .pending && row.scheduledAt.nanos ≤ now.nanos && !locked row.id).mergeSort QueuedTask.before).head?

/-- What `claim_next_task` makes of the row that it has read. -/
def QueuedTask.claimed (task : QueuedTask) : QueuedTask :=
  { task with status := .running, attempts := task.attempts + 1 }

/-- The `UPDATE` of `claim_next_task`. -/
def claimChange (task : QueuedTask) : Change := ⟨.running, some task.claimed.attempts, none⟩

/-- `mark_task_completed` -/
def completedChange : Change := ⟨.completed, none, some none⟩

/-- `mark_task_failed` -/
def failedChange (errorMessage : String) (attempts maxAttempts : Int) : Change :=
  ⟨if attempts < maxAttempts then .pending else .failed, none, some (some errorMessage)⟩

/-! ### Workers -/

/-- What a worker knows of the registered handlers and of JSON. -/
structure Registry where
  handles : String → Bool
  payloadError : String → Option String

/-- The error with which `run_once` fails a claimed task without starting a handler. -/
def refusal (registry : Registry) (task : QueuedTask) : Option String :=
  if !registry.handles task.taskName then some ("Task handler '" ++ task.taskName ++ "' not found in registry")
  else (registry.payloadError task.payload).map ("Failed to parse payload JSON: " ++ ·)

/-- How the join handle of a spawned handler ends. -/
inductive Outcome where
  | ok
  | taskError (message : String)
  | panicked (payload : Option String)
  | joinError (message : String)

/-- The `UPDATE` with which `run_once` ends. -/
def finishChange (task : QueuedTask) : Outcome → Change
  | .ok => completedChange
  | .taskError message => failedChange message task.attempts task.maxAttempts
  | .panicked payload =>
    failedChange ("Task panicked: " ++ payload.getD "unknown panic message") task.attempts task.maxAttempts
  | .joinError message => failedChange ("Task execution failed: " ++ message) task.attempts task.maxAttempts

/-- Where a worker stands in `run_once`: inside the transaction of `claim_next_task` after its `SELECT` or its
    `UPDATE`, with a claimed task, or with a handler that runs. -/
inductive Phase where
  | idle
  | selected (now : DateTime) (task : QueuedTask) (version : Nat)
  | updated (now : DateTime) (task : QueuedTask)
  | claimed (task : QueuedTask)
  | started (task : QueuedTask)

/-- The task that a worker holds. -/
def Phase.held : Phase → Option QueuedTask
  | .claimed task | .started task => some task
  | _ => none

/-- The lock of a row, or of the whole database. -/
inductive Lock where
  | row (id : Int)
  | database
deriving DecidableEq, Repr

def Lock.covers : Lock → Int → Bool
  | .row locked, id => locked == id
  | .database, _ => true

/-- The committed rows, how many writes have been committed, who holds which lock, and where the workers stand.
    `starts` counts for each task how often its handler was started, and `claims` lists the claimed tasks with
    the time at which the worker looked. -/
structure State (W : Type) where
  queue : Queue
  version : Nat
  locks : List (W × Lock)
  phase : W → Phase
  starts : Int → Nat
  claims : List (Int × DateTime)

namespace State
variable {W : Type}

def start : State W := ⟨Keyed.empty, 0, [], fun _ => .idle, fun _ => 0, []⟩

def locked (s : State W) (id : Int) : Bool := Locks.locked Lock.covers s.locks id

variable [DecidableEq W]

/-- A worker goes to another phase. -/
def goto (s : State W) (w : W) (phase : Phase) : State W := { s with phase := Function.update s.phase w phase }

/-- An `UPDATE` is committed, and the worker goes to another phase. -/
def write (s : State W) (w : W) (id : Int) (change : Change) (phase : Phase) : State W :=
  { s with queue := s.queue.update id change, version := s.version + 1, phase := Function.update s.phase w phase }

/-- The transaction of a worker ends: its locks are free. -/
def release (s : State W) (w : W) : State W := { s with locks := Locks.release s.locks w }

end State

/-- One statement of `enqueue_scheduled` or of a worker. On Postgres the `SELECT` of a claim locks its row and
    skips locked ones; on SQLite its `UPDATE` locks the database, and is refused when something was committed since
    the `SELECT`. Any statement may fail instead, and the answer to a `COMMIT` may get lost. -/
inductive Step {W : Type} [DecidableEq W] (dialect : Dialect) (registry : Registry) (s : State W) : State W → Prop
  | enqueue (taskName payload : String) (createdAt scheduledAt : DateTime) (free : s.locked s.queue.nextId = false) :
      Step dialect registry s
        { s with
          queue := s.queue.insert (enqueueScheduled taskName payload createdAt scheduledAt)
          version := s.version + 1 }
  | selectPostgres {w : W} {task : QueuedTask} (postgres : dialect = .postgres) (idle : s.phase w = .idle)
      (now : DateTime) (found : nextTask s.queue now s.locked = some task) :
      Step dialect registry s { s.goto w (.selected now task s.version) with locks := (w, .row task.id) :: s.locks }
  | selectSqlite {w : W} {task : QueuedTask} (sqlite : dialect = .sqlite) (idle : s.phase w = .idle)
      (now : DateTime) (found : nextTask s.queue now (fun _ => false) = some task) :
      Step dialect registry s (s.goto w (.selected now task s.version))
  | updatePostgres {w : W} {now : DateTime} {task : QueuedTask} {version : Nat} (postgres : dialect = .postgres)
      (selected : s.phase w = .selected now task version) : Step dialect registry s (s.goto w (.updated now task))
  | updateSqlite {w : W} {now : DateTime} {task : QueuedTask} (sqlite : dialect = .sqlite)
      (selected : s.phase w = .selected now task s.version) (free : s.locks = []) :
      Step dialect registry s { s.goto w (.updated now task) with locks := [(w, .database)] }
  | commit {w : W} {now : DateTime} {task : QueuedTask} (updated : s.phase w = .updated now task) (answered : Bool) :
      Step dialect registry s
        { (s.write w task.id (claimChange task) (if answered then .claimed task.claimed else .idle)).release w with
          claims := (task.id, now) :: s.claims }
  | rollback {w : W} (inTransaction : (∃ now task version, s.phase w = .selected now task version) ∨
      ∃ now task, s.phase w = .updated now task) : Step dialect registry s ((s.goto w .idle).release w)
  | refuse {w : W} {task : QueuedTask} {message : String} (claimed : s.phase w = .claimed task)
      (refused : refusal registry task = some message) (free : s.locked task.id = false) :
      Step dialect registry s (s.write w task.id (failedChange message task.attempts task.maxAttempts) .idle)
  | start {w : W} {task : QueuedTask} (claimed : s.phase w = .claimed task) (accepted : refusal registry task = none) :
      Step dialect registry s
        { s.goto w (.started task) with starts := Function.update s.starts task.id (s.starts task.id + 1) }
  | finish {w : W} {task : QueuedTask} (started : s.phase w = .started task) (outcome : Outcome)
      (free : s.locked task.id = false) :
      Step dialect registry s (s.write w task.id (finishChange task outcome) .idle)
  | lose {w : W} {task : QueuedTask} (held : (s.phase w).held = some task) : Step dialect registry s (s.goto w .idle)

/-- The states that some interleaving of steps reaches. -/
inductive Reaches {W : Type} [DecidableEq W] (dialect : Dialect) (registry : Registry) (s : State W) : State W → Prop
  | refl : Reaches dialect registry s s
  | step {t u : State W} (earlier : Reaches dialect registry s t) (step : Step dialect registry t u) :
      Reaches dialect registry s u

end Djangors.Tasks
