import Djangors.Lib.Except
import Djangors.Tasks.Schedules
import Djangors.Theorems.RecurringTicks

/-! # One bad schedule

A tick is one transaction over all due rows. A row whose schedule cannot be read, or has no next occurrence, ends
it, and with it the work for the rows before it. -/

namespace Djangors.Tasks
open Db

section Ticks
variable {Schedule : Type} (cron : Cron Schedule)

/-- The expression of a row can be read and has an occurrence after the row's time. -/
def Fires (row : RecurringTask) : Prop :=
  ∃ schedule next, parseSchedule cron row.cronExpr = .ok schedule ∧ cron.after schedule row.nextRunAt = some next

/-- The rows that are due, alone or not. -/
abbrev due (tables : Tables) (now : DateTime) : List RecurringTask := dueTasks tables.recurring now fun _ => false

/-- The due rows that fire, each with its next occurrence. -/
def firings (tables : Tables) (now : DateTime) : List Firing :=
  (due tables now).filterMap fun row => (fireRow cron row).toOption

/-- Every due row that fires is enqueued once and moves on. -/
structure Served (tables : Tables) (now : DateTime) (after : Tables) : Prop where
  enqueued : ∃ fresh, after.queue.rows = tables.queue.rows ++ fresh ∧
    (fresh.map (·.work)).Perm ((firings cron tables now).map (·.work))
  advanced : ∀ firing ∈ firings cron tables now, firing.advance firing.row ∈ after.recurring.rows

variable {cron} {tables after : Tables} {now : DateTime} {row : RecurringTask} {rows : List RecurringTask}

theorem fires_iff : Fires cron row ↔ ∃ firing, fireRow cron row = .ok firing := by
  constructor
  · rintro ⟨schedule, next, hschedule, hnext⟩
    exact ⟨⟨row, next⟩, by simp [fireRow, hschedule, hnext]⟩
  · rintro ⟨firing, h⟩
    obtain ⟨-, schedule, hschedule, hnext⟩ := fireRow_eq_ok h
    exact ⟨schedule, firing.next, hschedule, hnext⟩

/-! ### What a tick leaves -/

/-- The loop fires the rows, if all of them fire. -/
theorem foldlM_tickRow {sofar done : Tables × Nat} : rows.foldlM (tickRow cron) sofar = .ok done ↔
    ∃ fired, List.Forall₂ (fun row firing => fireRow cron row = .ok firing) rows fired ∧
      done = (fired.foldl Tables.fire sofar.1, sofar.2 + fired.length) := by
  induction rows generalizing sofar with
  | nil =>
    rw [List.foldlM_nil]
    constructor
    · rintro ⟨⟩
      exact ⟨[], .nil, rfl⟩
    · rintro ⟨_, ⟨⟩, rfl⟩
      rfl
  | cons row rows ih =>
    rw [List.foldlM_cons, Except.bind_eq_ok]
    constructor
    · rintro ⟨next, hnext, hrest⟩
      obtain ⟨firing, hfire, hnext⟩ := Except.bind_eq_ok.mp hnext
      cases hnext
      obtain ⟨fired, hfired, rfl⟩ := ih.mp hrest
      exact ⟨firing :: fired, .cons hfire hfired, by simp [Nat.add_assoc, Nat.add_comm 1]⟩
    · rintro ⟨_, _ | ⟨hfire, hfired⟩, rfl⟩
      refine ⟨_, Except.bind_eq_ok.mpr ⟨_, hfire, rfl⟩, ih.mpr ⟨_, hfired, ?_⟩⟩
      simp [Nat.add_assoc, Nat.add_comm 1]

theorem filterMap_fires {fired : List Firing}
    (h : List.Forall₂ (fun row firing => fireRow cron row = .ok firing) rows fired) :
    rows.filterMap (fun row => (fireRow cron row).toOption) = fired := by
  induction h with
  | nil => rfl
  | cons hfire _ ih =>
    rw [List.filterMap_cons, hfire, ih]
    rfl

/-- When all due rows fire, a tick fires them. -/
theorem workerTick_fires (h : ∀ row ∈ due tables now, Fires cron row) :
    workerTick cron tables now = (firings cron tables now).foldl Tables.fire tables := by
  obtain ⟨fired, hfired⟩ := Except.mapM_isOk.mpr fun row hrow => fires_iff.mp (h row hrow)
  rw [Except.mapM_eq_ok] at hfired
  have hfirings : firings cron tables now = fired := filterMap_fires hfired
  have htick : tickRecurringTasks cron tables now = .ok (fired.foldl Tables.fire tables, 0 + fired.length) :=
    foldlM_tickRow.mpr ⟨fired, hfired, rfl⟩
  rw [workerTick, htick, hfirings]

/-- When a due row does not fire, a tick leaves everything as it is. -/
theorem workerTick_stuck (hrow : row ∈ due tables now) (h : ¬ Fires cron row) : workerTick cron tables now = tables := by
  rw [workerTick]
  split
  · rename_i after count htick
    obtain ⟨fired, hfired, _⟩ := foldlM_tickRow.mp htick
    obtain ⟨firing, _, hfire⟩ := Except.exists_mapM_of_mem (Except.mapM_eq_ok.mpr hfired) hrow
    exact absurd (fires_iff.mpr ⟨firing, hfire⟩) h
  · rfl

/-- As long as nobody repairs the row, no later tick does anything either. -/
theorem workerTicks_stuck {clock : List DateTime} (hrow : row ∈ due tables now) (h : ¬ Fires cron row)
    (later : ∀ t ∈ clock, now ≤ t) : clock.foldl (workerTick cron) tables = tables := by
  induction clock with
  | nil => rfl
  | cons t clock ih =>
    obtain ⟨ht, later⟩ := List.forall_mem_cons.mp later
    have hstill : row ∈ due tables t := by
      rw [due, dueTasks, List.mem_mergeSort, List.mem_filter] at hrow ⊢
      simp only [Bool.not_false, Bool.and_true, Bool.and_eq_true, decide_eq_true_eq] at hrow ⊢
      exact ⟨hrow.1, hrow.2.1, le_trans hrow.2.2 ht⟩
    rw [List.foldl_cons, workerTick_stuck hstill h, ih later]

/-- Firing rows enqueues a task for each. -/
theorem queue_fireAll (tables : Tables) (fired : List Firing) : ∃ fresh,
    (fired.foldl Tables.fire tables).queue.rows = tables.queue.rows ++ fresh ∧ fresh.map (·.work) = fired.map (·.work) := by
  induction fired generalizing tables with
  | nil => exact ⟨[], by simp⟩
  | cons firing fired ih =>
    obtain ⟨fresh, hrows, hwork⟩ := @ih (tables.fire firing)
    have hfirst : (tables.fire firing).queue.rows = tables.queue.rows ++ [{ enqueueScheduled firing.row.taskName
      firing.row.payload firing.row.nextRunAt firing.row.nextRunAt with id := tables.queue.nextId }] := rfl
    rw [hfirst, List.append_assoc] at hrows
    exact ⟨_, hrows, by rw [List.map_append, List.map_cons, hwork]; rfl⟩

/-- Firing rows with different keys moves each of them on. -/
theorem advance_fireAll {fired : List Firing} (hrows : ∀ firing ∈ fired, firing.row ∈ tables.recurring.rows)
    (hids : (fired.map (·.row.id)).Nodup) {firing : Firing} (hfiring : firing ∈ fired) :
    firing.advance firing.row ∈ (fired.foldl Tables.fire tables).recurring.rows := by
  have hkept {fired : List Firing} {tables : Tables} {row : RecurringTask} (hrow : row ∈ tables.recurring.rows)
      (hother : ∀ firing ∈ fired, row.id ≠ firing.row.id) : row ∈ (fired.foldl Tables.fire tables).recurring.rows := by
    induction fired generalizing tables with
    | nil => exact hrow
    | cons firing fired ih =>
      obtain ⟨hne, hother⟩ := List.forall_mem_cons.mp hother
      exact ih (mem_fire_of_ne hrow hne) hother
  induction fired generalizing tables with
  | nil => cases hfiring
  | cons first fired ih =>
    rw [List.map_cons, List.nodup_cons] at hids
    obtain ⟨hrow, hrows⟩ := List.forall_mem_cons.mp hrows
    have hne {other : Firing} (hother : other ∈ fired) : other.row.id ≠ first.row.id := fun heq =>
      hids.1 (List.mem_map.mpr ⟨other, hother, heq⟩)
    rw [List.foldl_cons]
    rcases List.mem_cons.mp hfiring with rfl | hfiring
    · exact hkept (mem_fire.mpr ⟨firing.row, hrow, if_pos rfl⟩) fun other hother => (hne hother).symm
    · exact ih (fun other hother => mem_fire_of_ne (hrows other hother) (hne hother)) hids.2 hfiring

theorem mem_firings {firing : Firing} (h : firing ∈ firings cron tables now) :
    firing.row ∈ due tables now ∧ fireRow cron firing.row = .ok firing := by
  obtain ⟨row, hrow, hfire⟩ := List.mem_filterMap.mp h
  have hok : fireRow cron row = .ok firing := by
    cases hresult : fireRow cron row with
    | error e =>
      rw [hresult] at hfire
      cases hfire
    | ok other =>
      rw [hresult] at hfire
      cases hfire
      rfl
  obtain ⟨rfl, -⟩ := fireRow_eq_ok hok
  exact ⟨hrow, hok⟩

theorem firings_ids : ((firings cron tables now).map (·.row.id)).Nodup := by
  have hsub (rows : List RecurringTask) :
      ((rows.filterMap fun row => (fireRow cron row).toOption).map (·.row.id)).Sublist (rows.map (·.id)) := by
    induction rows with
    | nil => exact .slnil
    | cons row rows ih =>
      rw [List.filterMap_cons]
      cases hfire : fireRow cron row with
      | error e => exact ih.cons _
      | ok firing =>
        obtain ⟨rfl, -⟩ := fireRow_eq_ok hfire
        exact ih.cons_cons _
  exact List.Nodup.sublist (hsub _) (dueTasks_ids tables.recurring now fun _ => false)

/-! ### Among other schedulers -/

section Schedulers
variable {W : Type} [DecidableEq W] {dialect : Dialect} {events : List (TickEvent W)} {s : Ticks W} {w : W}
  {version : Nat}

/-- Nothing stands in the way of a write of a scheduler. -/
def CanWrite (dialect : Dialect) (s : Ticks W) (w : W) (version : Nat) : Prop :=
  dialect = .postgres ∨ dialect = .sqlite ∧ (s.locks = [] ∧ version = s.version ∨ (w, .database) ∈ s.locks)

omit [DecidableEq W] in
/-- A scheduler that can write does so, and can write again. -/
theorem CanWrite.mayWrite (h : CanWrite dialect s w version) : ∃ locks, MayWrite dialect s w version locks ∧
    (dialect = .postgres ∨ dialect = .sqlite ∧ (w, .database) ∈ locks) := by
  rcases h with postgres | ⟨sqlite, ⟨free, current⟩ | locked⟩
  · exact ⟨s.locks, .postgres postgres, .inl postgres⟩
  · exact ⟨_, .first sqlite free current, .inr ⟨sqlite, List.mem_singleton_self _⟩⟩
  · exact ⟨s.locks, .again sqlite locked, .inr ⟨sqlite, locked⟩⟩

/-- A scheduler inserts and updates for one row after the other. -/
theorem ticking_run {todo : List RecurringTask} {done fired : List Firing}
    (hfired : List.Forall₂ (fun row firing => fireRow cron row = .ok firing) todo fired) (run : TickRun dialect cron events s)
    (ticking : s.phase w = .ticking version todo done) (write : CanWrite dialect s w version) :
    ∃ later t, TickRun dialect cron (events ++ later) t ∧ t.tables = s.tables ∧
      t.phase w = .ticking version [] (done ++ fired) := by
  induction hfired generalizing events s done with
  | nil => exact ⟨[], s, by simpa using run, rfl, by simpa using ticking⟩
  | @cons row firing todo fired hfire _ ih =>
    obtain ⟨locks, mayWrite, again⟩ := write.mayWrite
    have inserted := TickRun.step run (.insert ticking hfire mayWrite)
    have updated := TickRun.step inserted (.update (w := w) (Function.update_self ..))
    have write' : CanWrite dialect (Ticks.goto { s.goto w (.inserted version firing todo done) with locks := locks } w
        (.ticking version todo (done ++ [firing]))) w version := by
      rcases again with postgres | ⟨sqlite, locked⟩
      · exact .inl postgres
      · exact .inr ⟨sqlite, .inr locked⟩
    obtain ⟨later, t, hrun, htables, hphase⟩ := ih updated (Function.update_self ..) write'
    refine ⟨.statement w :: .statement w :: later, t, ?_, htables, ?_⟩
    · simpa using hrun
    · simpa using hphase

/-- A tick alone is one of the ways that a scheduler can take while nobody holds a lock. -/
theorem tick_run {count : Nat} (run : TickRun dialect cron events s) (idle : s.phase w = .idle) (free : s.locks = [])
    (h : tickRecurringTasks cron s.tables now = .ok (after, count)) :
    ∃ later t, TickRun dialect cron (events ++ later) t ∧ t.tables = after := by
  obtain ⟨fired, hfired, hafter⟩ := foldlM_tickRow.mp h
  obtain ⟨rfl, -⟩ := Prod.mk.inj hafter
  have hread : ∃ later t, TickRun dialect cron (events ++ later) t ∧ t.tables = s.tables ∧
      t.phase w = .ticking s.version (due s.tables now) [] ∧ CanWrite dialect t w s.version := by
    cases dialect with
    | sqlite =>
      refine ⟨[.statement w], _, .step run (.selectSqlite rfl idle now), rfl, Function.update_self .., ?_⟩
      exact .inr ⟨rfl, .inl ⟨free, rfl⟩⟩
    | postgres =>
      have hlocked : s.locked none = false := by rw [Ticks.locked, free]; rfl
      have locked := TickRun.step run (.lock rfl idle hlocked)
      have selected := TickRun.step locked (.selectPostgres (Function.update_self ..) now)
      rw [List.append_assoc] at selected
      -- the advisory lock covers no row
      have hrows : (fun id => Ticks.locked { s.goto w .ready with locks := (w, .advisory) :: s.locks } (some id)) =
          fun _ => false := by
        funext id
        rw [Ticks.locked, free]
        rfl
      refine ⟨_, _, selected, rfl, ?_, .inl rfl⟩
      exact (Function.update_self ..).trans
        (congrArg (fun locked => TickPhase.ticking s.version (dueTasks s.tables.recurring now locked) []) hrows)
  obtain ⟨read, t, hread, htables, hreading, hwrite⟩ := hread
  obtain ⟨wrote, u, hwrote, hsame, hphase⟩ := ticking_run hfired hread hreading hwrite
  have committed := TickRun.step hwrote (.commit hphase)
  rw [List.append_assoc, List.append_assoc] at committed
  refine ⟨_, _, committed, ?_⟩
  rw [hsame, htables]
  rfl

end Schedulers

end Ticks

/-- A due row that fires is not served next to one that does not. -/
theorem not_served {Schedule : Type} {cron : Cron Schedule} {tables : Tables} {now : DateTime} {row bad : RecurringTask}
    (hrow : row ∈ due tables now) (hfires : Fires cron row) (hbad : bad ∈ due tables now) (hstuck : ¬ Fires cron bad) :
    ¬ Served cron tables now (workerTick cron tables now) := by
  intro served
  obtain ⟨firing, hfire⟩ := fires_iff.mp hfires
  obtain ⟨fresh, hqueue, hperm⟩ := served.enqueued
  rw [workerTick_stuck hbad hstuck] at hqueue
  have hempty : fresh = [] := by simpa using hqueue
  rw [hempty, List.map_nil] at hperm
  have hnone : firings cron tables now = [] := by simpa using hperm.symm.eq_nil
  have hmem : firing ∈ firings cron tables now := List.mem_filterMap.mpr ⟨row, hrow, by rw [hfire]; rfl⟩
  rw [hnone] at hmem
  cases hmem

/-- A tick serves every due row that fires exactly when all due rows fire, or none does. -/
theorem served_iff {Schedule : Type} (cron : Cron Schedule) (tables : Tables) (now : DateTime) :
    Served cron tables now (workerTick cron tables now) ↔
      (∀ row ∈ due tables now, Fires cron row) ∨ ∀ row ∈ due tables now, ¬ Fires cron row := by
  constructor
  · intro served
    by_contra hmixed
    obtain ⟨hsome, hany⟩ := not_or.mp hmixed
    simp only [not_forall, not_not] at hsome hany
    obtain ⟨bad, hbad, hstuck⟩ := hsome
    obtain ⟨row, hrow, hfires⟩ := hany
    exact not_served hrow hfires hbad hstuck served
  · rintro (hall | hnone)
    · rw [workerTick_fires hall]
      obtain ⟨fresh, hqueue, hwork⟩ := queue_fireAll tables (firings cron tables now)
      refine ⟨⟨fresh, hqueue, hwork ▸ .refl _⟩, fun firing hfiring => ?_⟩
      exact advance_fireAll (fun other hother => (dueTasks_mem (mem_firings hother).1).1) firings_ids hfiring
    · have hempty : firings cron tables now = [] := List.eq_nil_iff_forall_not_mem.mpr fun firing hfiring => by
        obtain ⟨hrow, hfire⟩ := mem_firings hfiring
        exact hnone _ hrow (fires_iff.mpr ⟨firing, hfire⟩)
      have hsame : workerTick cron tables now = tables := by
        rcases hdue : due tables now with _ | ⟨row, rows⟩
        · rw [workerTick, tickRecurringTasks, show dueTasks tables.recurring now (fun _ => false) = [] from hdue]
          rfl
        · have hrow : row ∈ due tables now := by rw [hdue]; exact List.mem_cons_self ..
          exact workerTick_stuck hrow (hnone row hrow)
      rw [hsame]
      exact ⟨⟨[], by simp, by simp [hempty]⟩, by simp [hempty]⟩

/-! ### A bad schedule next to a good one -/

/-- A row whose expression cannot be read. -/
def broken : RecurringTask where
  id := 2
  taskName := "clean_up"
  payload := "null"
  cronExpr := "whenever"
  nextRunAt := ⟨60000000000⟩
  lastRunAt := none
  enabled := true

/-- A row that is due, and one that is due with it. -/
def mixed : Tables where
  recurring := (Recurrences.insert Keyed.empty minutely).insert broken
  queue := Keyed.empty

theorem mixed_not_served : ¬ Served everyMinute mixed ⟨60000000000⟩ (workerTick everyMinute mixed ⟨60000000000⟩) := by
  have hdue {row : RecurringTask} (hrow : row = minutely ∨ row = broken) : row ∈ due mixed ⟨60000000000⟩ := by
    refine List.mem_mergeSort.mpr (List.mem_filter.mpr ?_)
    rcases hrow with rfl | rfl
    · exact ⟨List.mem_cons_self .., by decide⟩
    · exact ⟨List.mem_cons_of_mem _ (List.mem_cons_self ..), by decide⟩
  refine not_served (hdue (.inl rfl)) ⟨(), ⟨120000000000⟩, by decide, rfl⟩ (hdue (.inr rfl)) ?_
  rintro ⟨_, _, hparse, _⟩
  have hbad : parseSchedule everyMinute broken.cronExpr = .error "cron expression must contain exactly five fields" := by
    decide
  cases hbad.symm.trans hparse

end Djangors.Tasks
