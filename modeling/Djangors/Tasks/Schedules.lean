import Djangors.Lib.Calendar
import Djangors.Tasks.Recurring

/-! # Schedules

Five-field cron expressions with the meaning that cron gives them, and what the `cron` crate makes of them behind
the `0` for the seconds that `parse_schedule` puts in front. -/

namespace Djangors.Tasks

/-! ### Expressions -/

/-- An item of the list in a field. -/
inductive CronItem where
  | star
  | starStep (step : Nat)
  | point (n : Nat)
  | range (first last : Nat)
  | rangeStep (first last step : Nat)
deriving DecidableEq, Repr

namespace CronItem

def text : CronItem → String
  | star => "*"
  | starStep step => "*/" ++ toString step
  | point n => toString n
  | range first last => toString first ++ "-" ++ toString last
  | rangeStep first last step => toString first ++ "-" ++ toString last ++ "/" ++ toString step

def isStar : CronItem → Bool
  | star | starStep _ => true
  | _ => false

/-- The numbers of the item lie between bounds, and its step is one. -/
def valid (low high : Nat) : CronItem → Bool
  | star => true
  | starStep step => 1 ≤ step && step ≤ high
  | point n => low ≤ n && n ≤ high
  | range first last => low ≤ first && first ≤ last && last ≤ high
  | rangeStep first last step => low ≤ first && first ≤ last && last ≤ high && 1 ≤ step && step ≤ high

/-- Whether the item names a number, when a star stands for the numbers between the bounds. -/
def names (low high : Nat) : CronItem → Nat → Bool
  | star, n => low ≤ n && n ≤ high
  | starStep step, n => low ≤ n && n ≤ high && (n - low) % step == 0
  | point m, n => n == m
  | range first last, n => first ≤ n && n ≤ last
  | rangeStep first last step, n => first ≤ n && n ≤ last && (n - first) % step == 0

/-- The item names the number 0 itself. -/
def startsAtZero : CronItem → Bool
  | point n => n == 0
  | range first _ | rangeStep first _ _ => first == 0
  | _ => false

end CronItem

abbrev CronField := List CronItem

namespace CronField

def text (field : CronField) : String := String.intercalate "," (field.map CronItem.text)

def valid (low high : Nat) (field : CronField) : Bool := !field.isEmpty && field.all (·.valid low high)

def names (low high : Nat) (field : CronField) (n : Nat) : Bool := field.any (·.names low high n)

/-- The field starts with a star: it does not restrict the days. -/
def isStar (field : CronField) : Bool := field.head?.any (·.isStar)

end CronField

structure CronExpression where
  minute : CronField
  hour : CronField
  dayOfMonth : CronField
  month : CronField
  dayOfWeek : CronField
deriving DecidableEq, Repr

namespace CronExpression
variable (e : CronExpression)

/-- The text has the fields of the expression, with white space between them. -/
def WrittenAs (text : String) : Prop :=
  Text.splitWhitespace text.toList =
    [e.minute.text.toList, e.hour.text.toList, e.dayOfMonth.text.toList, e.month.text.toList, e.dayOfWeek.text.toList]

/-- All numbers are in their ranges, where the numbers of weekdays start with `firstWeekday`. -/
def valid (firstWeekday : Nat) : Bool :=
  e.minute.valid 0 59 && e.hour.valid 0 23 && e.dayOfMonth.valid 1 31 && e.month.valid 1 12 &&
    e.dayOfWeek.valid firstWeekday 7

/-! ### Meaning -/

/-- A weekday of the standard, where 0 and 7 are Sunday. -/
def standardWeekday (weekday : Nat) : Bool :=
  e.dayOfWeek.names 0 7 weekday || weekday == 0 && e.dayOfWeek.names 0 7 7

/-- A weekday of the crate, where 1 is Sunday. -/
def crateWeekday (weekday : Nat) : Bool := e.dayOfWeek.names 1 7 (weekday + 1)

/-- In the standard, one of two day fields is enough when both restrict the days. -/
def standardDay (day weekday : Nat) : Bool :=
  if e.dayOfMonth.isStar || e.dayOfWeek.isStar then e.dayOfMonth.names 1 31 day && e.standardWeekday weekday
  else e.dayOfMonth.names 1 31 day || e.standardWeekday weekday

/-- In the crate, both day fields have to agree. -/
def crateDay (day weekday : Nat) : Bool := e.dayOfMonth.names 1 31 day && e.crateWeekday weekday

/-- A time is the start of a minute that the fields name, with a rule for its day of the month and its weekday. -/
def occursBy (dayRule : Nat → Nat → Bool) (t : DateTime) : Bool :=
  let minutes := t.nanos / 60000000000
  let date := Calendar.monthDay (minutes / 1440)
  t.nanos % 60000000000 == 0 && e.minute.names 0 59 (minutes % 60).toNat && e.hour.names 0 23 (minutes / 60 % 24).toNat &&
    e.month.names 1 12 date.1 && dayRule date.2 (Calendar.weekday (minutes / 1440))

/-- The minutes that standard cron matches. -/
def standardOccurs (t : DateTime) : Prop := e.occursBy e.standardDay t = true

/-- The minutes that the crate matches. -/
def crateOccurs (t : DateTime) : Prop := e.occursBy e.crateDay t = true

end CronExpression

/-- The `cron` crate on a text behind the seconds: it reads numbers in its ranges, and between two times it gives
    one occurrence after the other. -/
structure Cron.Reads {Schedule : Type} (cron : Cron Schedule) (first last : DateTime) (text : String)
    (e : CronExpression) : Prop where
  accepts : (∃ schedule, cron.fromStr ("0 " ++ text) = .ok schedule) ↔ e.valid 1 = true
  after : ∀ schedule, cron.fromStr ("0 " ++ text) = .ok schedule → ∀ t u, first ≤ t → u ≤ last →
    (cron.after schedule t = some u ↔ IsNext e.crateOccurs t u)

end Djangors.Tasks

/-! ## A tick alone

`tick_recurring_tasks` (`djangors-tasks/src/lib.rs`) from its start to its end, with no other scheduler and no
statement that fails, and its turn in the loop of a worker. -/

namespace Djangors.Tasks
open Db

section Tick
variable {Schedule : Type} (cron : Cron Schedule)

/-- The body of the loop over the due rows: the tables and the count so far. -/
def tickRow (sofar : Tables × Nat) (row : RecurringTask) : Except String (Tables × Nat) := do
  let firing ← fireRow cron row
  return (sofar.1.fire firing, sofar.2 + 1)

/-- `tick_recurring_tasks`: the tables that the transaction commits, and how many tasks it has enqueued. -/
def tickRecurringTasks (tables : Tables) (now : DateTime) : Except String (Tables × Nat) :=
  (dueTasks tables.recurring now fun _ => false).foldlM (tickRow cron) (tables, 0)

/-- A tick in `Worker::run`, which discards the result; an error rolls the transaction back. -/
def workerTick (tables : Tables) (now : DateTime) : Tables :=
  match tickRecurringTasks cron tables now with
  | .ok (after, _) => after
  | .error _ => tables

end Tick

end Djangors.Tasks
