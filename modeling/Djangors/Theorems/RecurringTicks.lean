import Djangors.Tasks.Recurring

/-! # Recurring tasks fire once per occurrence

A tick fires the rows that it has read. Until it commits nobody changes them: on Postgres because it holds the
advisory lock, on SQLite because its first write is refused otherwise. -/

namespace Djangors.Tasks
open Db

/-! ### Tables -/

section Tables
variable {Schedule : Type} {cron : Cron Schedule} {occurs : Schedule → DateTime → Prop} {tables : Tables}
  {firings : List Firing} {firing : Firing}

/-- The times at which a recurring task was fired. -/
def firedAt (firings : List Firing) (id : Int) : List DateTime :=
  (firings.filter (·.row.id = id)).map (·.row.nextRunAt)

theorem firedAt_snoc_self : firedAt (firings ++ [firing]) firing.row.id = firedAt firings firing.row.id ++
    [firing.row.nextRunAt] := by
  simp [firedAt]

theorem firedAt_snoc_ne {id : Int} (h : firing.row.id ≠ id) : firedAt (firings ++ [firing]) id = firedAt firings id := by
  simp [firedAt, h]

theorem fireRow_eq_ok {row : RecurringTask} (h : fireRow cron row = .ok firing) :
    firing.row = row ∧ ∃ schedule, parseSchedule cron row.cronExpr = .ok schedule ∧
      cron.after schedule row.nextRunAt = some firing.next := by
  unfold fireRow at h
  split at h
  · cases h
  · rename_i schedule hschedule
    split at h
    · cases h
    · rename_i next hnext
      cases h
      exact ⟨rfl, schedule, hschedule, hnext⟩

theorem registerRecurring_eq_ok {taskName payload cronExpr : String} {now : DateTime} {row : RecurringTask}
    (h : registerRecurring cron taskName payload cronExpr now = .ok row) :
    ∃ schedule, parseSchedule cron row.cronExpr = .ok schedule ∧ cron.after schedule now = some row.nextRunAt := by
  unfold registerRecurring at h
  split at h
  · cases h
  · rename_i schedule hschedule
    split at h
    · cases h
    · rename_i next hnext
      cases h
      exact ⟨schedule, hschedule, hnext⟩

/-- What a queued task takes from a recurring one. -/
def QueuedTask.work (task : QueuedTask) : String × String × DateTime := (task.taskName, task.payload, task.scheduledAt)

def Firing.work (firing : Firing) : String × String × DateTime :=
  (firing.row.taskName, firing.row.payload, firing.row.nextRunAt)

/-- Every row awaits the occurrence after those that were fired, and the queue holds what was fired. -/
structure TablesOk (cron : Cron Schedule) (occurs : Schedule → DateTime → Prop) (tables : Tables)
    (firings : List Firing) : Prop where
  row : ∀ row ∈ tables.recurring.rows, ∃ schedule, parseSchedule cron row.cronExpr = .ok schedule ∧
    Awaiting (occurs schedule) (firedAt firings row.id) row.nextRunAt
  known : ∀ firing ∈ firings, ∃ row ∈ tables.recurring.rows, row.id = firing.row.id
  queue : tables.queue.rows.map (·.work) = firings.map (·.work)

theorem tablesOk_start : TablesOk cron occurs ⟨Keyed.empty, Keyed.empty⟩ [] := ⟨nofun, nofun, rfl⟩

theorem TablesOk.register {row : RecurringTask} {taskName payload cronExpr : String} {now : DateTime}
    (ok : TablesOk cron occurs tables firings)
    (correct : cron.Correct occurs) (h : registerRecurring cron taskName payload cronExpr now = .ok row) :
    TablesOk cron occurs { tables with recurring := tables.recurring.insert row } firings where
  row := by
    intro new hnew
    rcases Keyed.mem_insert.mp hnew with hnew | rfl
    · exact ok.row new hnew
    · obtain ⟨schedule, hschedule, hnext⟩ := registerRecurring_eq_ok h
      refine ⟨schedule, hschedule, ?_⟩
      have hnone : firedAt firings tables.recurring.nextId = [] := by
        rw [firedAt, List.map_eq_nil_iff, List.filter_eq_nil_iff]
        intro firing hfiring heq
        obtain ⟨old, hold, hid⟩ := ok.known firing hfiring
        exact Int.lt_irrefl _ ((hid.trans (of_decide_eq_true heq)) ▸ tables.recurring.keys_lt old hold)
      rw [hnone]
      exact Awaiting.start (correct schedule now _ hnext).1
  known := by
    intro firing hfiring
    obtain ⟨old, hold, hid⟩ := ok.known firing hfiring
    exact ⟨old, Keyed.mem_insert.mpr (.inl hold), hid⟩
  queue := ok.queue

theorem mem_fire {row : RecurringTask} : row ∈ (tables.fire firing).recurring.rows ↔
    ∃ old ∈ tables.recurring.rows, (if old.id = firing.row.id then firing.advance old else old) = row :=
  List.mem_map

theorem mem_fire_of_ne {row : RecurringTask} (hrow : row ∈ tables.recurring.rows) (hne : row.id ≠ firing.row.id) :
    row ∈ (tables.fire firing).recurring.rows :=
  mem_fire.mpr ⟨row, hrow, if_neg hne⟩

/-- One row is fired and moves on. -/
theorem TablesOk.fire (ok : TablesOk cron occurs tables firings)
    (correct : cron.Correct occurs) (hrow : firing.row ∈ tables.recurring.rows) (h : fireRow cron firing.row = .ok firing) :
    TablesOk cron occurs (tables.fire firing) (firings ++ [firing]) where
  row := by
    intro new hnew
    obtain ⟨old, hold, rfl⟩ := mem_fire.mp hnew
    split
    · rename_i heq
      obtain rfl := Keyed.eq_of_key hold hrow heq
      obtain ⟨-, schedule, hschedule, hnext⟩ := fireRow_eq_ok h
      obtain ⟨schedule', hschedule', hawaiting⟩ := ok.row _ hrow
      cases hschedule.symm.trans hschedule'
      refine ⟨schedule, hschedule, ?_⟩
      rw [show firedAt (firings ++ [firing]) (firing.advance firing.row).id = _ from firedAt_snoc_self]
      exact hawaiting.step (correct schedule _ _ hnext)
    · rename_i hne
      obtain ⟨schedule, hschedule, hawaiting⟩ := ok.row old hold
      rw [firedAt_snoc_ne (Ne.symm hne)]
      exact ⟨schedule, hschedule, hawaiting⟩
  known := by
    have kept : ∀ old ∈ tables.recurring.rows, ∃ row ∈ (tables.fire firing).recurring.rows, row.id = old.id := by
      intro old hold
      by_cases heq : old.id = firing.row.id
      · obtain rfl := Keyed.eq_of_key hold hrow heq
        exact ⟨_, mem_fire.mpr ⟨firing.row, hold, if_pos rfl⟩, rfl⟩
      · exact ⟨old, mem_fire_of_ne hold heq, rfl⟩
    intro other hother
    rcases List.mem_append.mp hother with hother | hother
    · obtain ⟨old, hold, hid⟩ := ok.known other hother
      obtain ⟨row, hmem, hid'⟩ := kept old hold
      exact ⟨row, hmem, hid'.trans hid⟩
    · rw [List.mem_singleton.mp hother]
      exact kept firing.row hrow
  queue := by
    rw [List.map_append, ← ok.queue]
    exact List.map_append

/-- All rows of a tick are fired. -/
theorem TablesOk.fireAll {done : List Firing} (ok : TablesOk cron occurs tables firings)
    (correct : cron.Correct occurs) (hrows : ∀ firing ∈ done, firing.row ∈ tables.recurring.rows) (hids : (done.map (·.row.id)).Nodup)
    (h : ∀ firing ∈ done, fireRow cron firing.row = .ok firing) :
    TablesOk cron occurs (done.foldl Tables.fire tables) (firings ++ done) := by
  induction done generalizing tables firings with
  | nil => rwa [List.append_nil]
  | cons firing done ih =>
    rw [List.map_cons, List.nodup_cons] at hids
    obtain ⟨hrow, hrows⟩ := List.forall_mem_cons.mp hrows
    obtain ⟨hfire, h⟩ := List.forall_mem_cons.mp h
    rw [List.foldl_cons, List.append_cons]
    refine ih (ok.fire correct hrow hfire) (fun other hother => ?_) hids.2 h
    refine mem_fire_of_ne (hrows other hother) fun heq => hids.1 ?_
    exact List.mem_map.mpr ⟨other, hother, heq⟩

end Tables

/-! ### Ticks -/

section Ticks
variable {W Schedule : Type} {dialect : Dialect} {cron : Cron Schedule} {s t : Ticks W} {w : W} {version : Nat}
  {todo : List RecurringTask} {done : List Firing}

/-- What a tick knows after its `SELECT`: the rows that it has read are as they were, unless its first write will be
    refused. -/
structure Working (dialect : Dialect) (cron : Cron Schedule) (s : Ticks W) (w : W) (version : Nat)
    (todo : List RecurringTask) (done : List Firing) : Prop where
  advisory : dialect = .postgres → (w, .advisory) ∈ s.locks
  wrote : dialect = .sqlite → done ≠ [] → (w, .database) ∈ s.locks
  le : version ≤ s.version
  current : dialect = .sqlite → (w, .database) ∈ s.locks → version = s.version
  read : dialect = .postgres ∨ version = s.version → ∀ row ∈ done.map (·.row) ++ todo, row ∈ s.tables.recurring.rows
  ids : ((done.map (·.row) ++ todo).map (·.id)).Nodup
  fired : ∀ firing ∈ done, fireRow cron firing.row = .ok firing

def TickOk (dialect : Dialect) (cron : Cron Schedule) (s : Ticks W) (w : W) : TickPhase → Prop
  | .idle => True
  | .ready => dialect = .postgres ∧ (w, .advisory) ∈ s.locks
  | .ticking version todo done => Working dialect cron s w version todo done
  | .inserted version firing todo done => Working dialect cron s w version todo (done ++ [firing])

structure TickInv (dialect : Dialect) (cron : Cron Schedule) (s : Ticks W) : Prop where
  exclusive : Locks.Exclusive TickLock.covers s.locks
  phase : ∀ w, TickOk dialect cron s w (s.phase w)

/-- What a tick knows stays true when others go on. -/
theorem Working.frame (h : Working dialect cron s w version todo done)
    (hlocks : ∀ lock, (w, lock) ∈ t.locks ↔ (w, lock) ∈ s.locks) (hversion : s.version ≤ t.version)
    (hrows : dialect = .postgres ∨ s.version = t.version → ∀ row ∈ s.tables.recurring.rows, row ∈ t.tables.recurring.rows)
    (hcurrent : dialect = .sqlite → (w, .database) ∈ s.locks → s.version = t.version) :
    Working dialect cron t w version todo done where
  advisory hd := (hlocks _).mpr (h.advisory hd)
  wrote hd hdone := (hlocks _).mpr (h.wrote hd hdone)
  le := Nat.le_trans h.le hversion
  current hd hlock := (h.current hd ((hlocks _).mp hlock)).trans (hcurrent hd ((hlocks _).mp hlock))
  read := by
    rintro (hd | heq) row hrow
    · exact hrows (.inl hd) row (h.read (.inl hd) row hrow)
    · have hs : version = s.version := Nat.le_antisymm h.le (heq ▸ hversion)
      exact hrows (.inr (hs.symm.trans heq)) row (h.read (.inr hs) row hrow)
  ids := h.ids
  fired := h.fired

theorem TickOk.frame {p : TickPhase} (h : TickOk dialect cron s w p)
    (hlocks : ∀ lock, (w, lock) ∈ t.locks ↔ (w, lock) ∈ s.locks) (hversion : s.version ≤ t.version)
    (hrows : dialect = .postgres ∨ s.version = t.version → ∀ row ∈ s.tables.recurring.rows, row ∈ t.tables.recurring.rows)
    (hcurrent : dialect = .sqlite → (w, .database) ∈ s.locks → s.version = t.version) : TickOk dialect cron t w p := by
  cases p with
  | idle => trivial
  | ready => exact ⟨h.1, (hlocks _).mpr h.2⟩
  | ticking => exact Working.frame h hlocks hversion hrows hcurrent
  | inserted => exact Working.frame h hlocks hversion hrows hcurrent

/-- On Postgres, two ticks past their first statement are one. -/
theorem TickInv.postgres_alone (inv : TickInv dialect cron s) {v : W} (hv : (v, .advisory) ∈ s.locks)
    (hw : (w, .advisory) ∈ s.locks) : v = w := by
  by_contra hne
  cases inv.exclusive _ hv _ hw hne none rfl

/-- On SQLite, two holders of the lock of the database are one. -/
theorem TickInv.sqlite_alone (inv : TickInv dialect cron s) {v : W} (hv : (v, .database) ∈ s.locks)
    (hw : (w, .database) ∈ s.locks) : v = w := by
  by_contra hne
  cases inv.exclusive _ hv _ hw hne none rfl

theorem tickInv_start : TickInv dialect cron (Ticks.start : Ticks W) := ⟨Locks.exclusive_nil, fun _ => trivial⟩

theorem dueTasks_mem {recurring : Recurrences} {now : DateTime} {locked : Int → Bool} {row : RecurringTask}
    (h : row ∈ dueTasks recurring now locked) : row ∈ recurring.rows ∧ locked row.id = false := by
  have hmem := List.mem_mergeSort.mp h
  rw [List.mem_filter] at hmem
  simp only [Bool.and_eq_true, Bool.not_eq_true'] at hmem
  exact ⟨hmem.1, hmem.2.2⟩

theorem dueTasks_ids (recurring : Recurrences) (now : DateTime) (locked : Int → Bool) :
    ((dueTasks recurring now locked).map (·.id)).Nodup := by
  refine ((List.mergeSort_perm _ _).map _).nodup_iff.mpr ?_
  exact recurring.keys.sublist (List.filter_sublist.map _)

/-- A tick that has just read its rows. -/
theorem working_select {locked : Int → Bool} {now : DateTime} (htables : t.tables = s.tables) (hversion : t.version = s.version)
    (advisory : dialect = .postgres → (w, .advisory) ∈ t.locks) :
    Working dialect cron t w s.version (dueTasks s.tables.recurring now locked) [] where
  advisory := advisory
  wrote _ h := absurd rfl h
  le := Nat.le_of_eq hversion.symm
  current _ _ := hversion.symm
  read _ _ hrow := htables ▸ (dueTasks_mem hrow).1
  ids := dueTasks_ids ..
  fired := nofun

theorem MayWrite.locks {locks : List (W × TickLock)} (write : MayWrite dialect s w version locks)
    (inv : TickInv dialect cron s) :
    Locks.Exclusive TickLock.covers locks ∧ ∀ v, v ≠ w → ∀ lock, (v, lock) ∈ locks ↔ (v, lock) ∈ s.locks := by
  cases write with
  | postgres h => exact ⟨inv.exclusive, fun _ _ _ => Iff.rfl⟩
  | again h locked => exact ⟨inv.exclusive, fun _ _ _ => Iff.rfl⟩
  | first h free current =>
    refine ⟨Locks.exclusive_nil.acquire_one fun _ _ => rfl, fun v hv lock => ?_⟩
    rw [free]
    constructor
    · intro hmem
      cases List.mem_singleton.mp hmem
      exact absurd rfl hv
    · exact nofun

/-- The rows that a tick is about to commit are as it has read them. -/
theorem TickInv.committing (inv : TickInv dialect cron s) (ticking : s.phase w = .ticking version todo done) :
    (∀ firing ∈ done, firing.row ∈ s.tables.recurring.rows) ∧ (done.map (·.row.id)).Nodup ∧
      ∀ firing ∈ done, fireRow cron firing.row = .ok firing := by
  have h : Working dialect cron s w version todo done := by
    have := inv.phase w
    rwa [ticking] at this
  refine ⟨fun firing hfiring => h.read ?_ _ (List.mem_append_left _ (List.mem_map_of_mem hfiring)), ?_, h.fired⟩
  · cases hd : dialect with
    | postgres => exact .inl rfl
    | sqlite => exact .inr (h.current hd (h.wrote hd (List.ne_nil_of_mem hfiring)))
  · have hids := h.ids
    rw [List.map_append, List.map_map] at hids
    exact hids.of_append_left

/-- The rows that were fired in a run. -/
def fired (events : List (TickEvent W)) : List Firing := events.flatMap (·.firings)

theorem fired_snoc (events : List (TickEvent W)) (event : TickEvent W) :
    fired (events ++ [event]) = fired events ++ event.firings := by
  simp [fired]

variable [DecidableEq W]

theorem TickInv.next {p : TickPhase} (inv : TickInv dialect cron s) (hphase : t.phase = Function.update s.phase w p)
    (exclusive : Locks.Exclusive TickLock.covers t.locks) (ok : TickOk dialect cron t w p)
    (others : ∀ v, v ≠ w → TickOk dialect cron s v (s.phase v) → TickOk dialect cron t v (s.phase v)) :
    TickInv dialect cron t where
  exclusive := exclusive
  phase v := by
    rw [hphase]
    by_cases hv : v = w
    · subst hv
      rwa [Function.update_self]
    · rw [Function.update_of_ne hv]
      exact others v hv (inv.phase v)

/-- A scheduler goes on without a commit. -/
theorem TickInv.goto {p : TickPhase} (inv : TickInv dialect cron s) (htables : t.tables = s.tables)
    (hversion : t.version = s.version) (hphase : t.phase = Function.update s.phase w p)
    (hlocks : ∀ v, v ≠ w → ∀ lock, (v, lock) ∈ t.locks ↔ (v, lock) ∈ s.locks)
    (exclusive : Locks.Exclusive TickLock.covers t.locks) (ok : TickOk dialect cron t w p) : TickInv dialect cron t :=
  inv.next hphase exclusive ok fun v hv h =>
    h.frame (hlocks v hv) (Nat.le_of_eq hversion.symm) (fun _ _ hrow => htables ▸ hrow) fun _ _ => hversion.symm

theorem tickInv_step {event : TickEvent W} (inv : TickInv dialect cron s) (step : TickStep dialect cron s event t) :
    TickInv dialect cron t := by
  cases step with
  | register ok free =>
    refine ⟨inv.exclusive, fun v => (inv.phase v).frame (fun _ => Iff.rfl) (Nat.le_succ _) ?_ ?_⟩
    · exact fun _ row hrow => Keyed.mem_insert.mpr (.inl hrow)
    · intro _ hlock
      cases Locks.locked_eq_false.mp free _ hlock
  | @lock w postgres idle free =>
    refine inv.goto rfl rfl rfl (fun v hv lock => ?_) ?_ ⟨postgres, List.mem_cons_self ..⟩
    · rw [List.mem_cons, or_iff_right fun heq => hv (congrArg Prod.fst heq)]
    · refine inv.exclusive.acquire_one fun key hkey => ?_
      rw [beq_iff_eq.mp hkey]
      exact free
  | @selectPostgres w ready now =>
    obtain ⟨-, hlock⟩ : TickOk dialect cron s w .ready := ready ▸ inv.phase w
    refine inv.goto rfl rfl rfl (fun v hv lock => ?_) ?_ (working_select rfl rfl fun _ => List.mem_append_right _ hlock)
    · refine List.mem_append.trans (or_iff_right fun hmem => ?_)
      obtain ⟨_, _, heq⟩ := List.mem_map.mp hmem
      exact hv (congrArg Prod.fst heq).symm
    · have free : ∀ lock ∈ (dueTasks s.tables.recurring now fun id => s.locked (some id)).map (fun row => TickLock.row row.id),
          ∀ key, lock.covers key = true → s.locked key = false := by
        intro lock hlock key hkey
        obtain ⟨row, hrow, rfl⟩ := List.mem_map.mp hlock
        rw [beq_iff_eq.mp hkey]
        exact (dueTasks_mem hrow).2
      have hrows := inv.exclusive.acquire (w := w) free
      rwa [List.map_map] at hrows
  | @selectSqlite w sqlite idle now =>
    refine inv.goto rfl rfl rfl (fun _ _ _ => Iff.rfl) inv.exclusive (working_select rfl rfl fun h => ?_)
    cases sqlite.symm.trans h
  | @insert w version row todo done firing locks ticking ok write =>
    have h : Working dialect cron s w version (row :: todo) done := by
      have := inv.phase w
      rwa [ticking] at this
    obtain ⟨exclusive, hothers⟩ := write.locks inv
    obtain ⟨hrow, -⟩ := fireRow_eq_ok ok
    have hrows : (done ++ [firing]).map (·.row) ++ todo = done.map (·.row) ++ row :: todo := by simp [hrow]
    refine inv.goto rfl rfl rfl hothers exclusive ⟨?_, ?_, h.le, ?_, ?_, ?_, ?_⟩
    · intro hd
      cases write with
      | postgres => exact h.advisory hd
      | first h' | again h' => cases hd.symm.trans h'
    · intro hd _
      cases write with
      | postgres h' => cases hd.symm.trans h'
      | first => exact List.mem_singleton_self _
      | again _ locked => exact locked
    · intro hd hlock
      cases write with
      | postgres => exact h.current hd hlock
      | first _ _ current => exact current
      | again => exact h.current hd hlock
    · rw [hrows]
      exact h.read
    · rw [hrows]
      exact h.ids
    · intro other hother
      rcases List.mem_append.mp hother with hother | hother
      · exact h.fired other hother
      · rw [List.mem_singleton.mp hother, hrow]
        exact ok
  | @update w version firing todo done inserted =>
    have h : Working dialect cron s w version todo (done ++ [firing]) := by
      have := inv.phase w
      rwa [inserted] at this
    exact inv.goto rfl rfl rfl (fun _ _ _ => Iff.rfl) inv.exclusive ⟨h.advisory, h.wrote, h.le, h.current, h.read, h.ids, h.fired⟩
  | @commit w version done ticking =>
    have h : Working dialect cron s w version [] done := by
      have := inv.phase w
      rwa [ticking] at this
    have hlocks : ∀ v, v ≠ w → ∀ lock, (v, lock) ∈ Locks.release s.locks w ↔ (v, lock) ∈ s.locks := fun v hv lock =>
      Locks.mem_release.trans (and_iff_left hv)
    refine inv.next rfl inv.exclusive.release trivial fun v hv hok => ?_
    by_cases hdone : done = []
    · subst hdone
      exact hok.frame (hlocks v hv) (Nat.le_refl _) (fun _ _ => id) fun _ _ => rfl
    · cases hd : dialect with
      | postgres =>
        subst hd
        have advisory := h.advisory rfl
        cases hp : s.phase v with
        | idle => trivial
        | ready =>
          rw [hp] at hok
          exact absurd (inv.postgres_alone hok.2 advisory) hv
        | ticking | inserted =>
          rw [hp] at hok
          exact absurd (inv.postgres_alone (Working.advisory hok rfl) advisory) hv
      | sqlite =>
        subst hd
        refine hok.frame (hlocks v hv) ?_ ?_ fun _ hlock => absurd (inv.sqlite_alone hlock (h.wrote rfl hdone)) hv
        · simp only [if_neg hdone]
          exact Nat.le_succ _
        · simp only [if_neg hdone]
          rintro (hd | hversion)
          · cases hd
          · exact absurd hversion (Nat.succ_ne_self _).symm
  | @fail w running =>
    exact inv.goto rfl rfl rfl (fun v hv lock => Locks.mem_release.trans (and_iff_left hv)) inv.exclusive.release trivial

/-- Only a registration and the commit of a tick change the tables. -/
theorem tables_eq {event : TickEvent W} (step : TickStep dialect cron s event t) (registered : event ≠ .registered)
    (ticked : ∀ w firings, event ≠ .ticked w firings) : t.tables = s.tables := by
  cases step with
  | register => exact absurd rfl registered
  | commit => exact absurd rfl (ticked _ _)
  | lock | selectPostgres | selectSqlite | insert | update | fail => rfl

section Runs
variable {occurs : Schedule → DateTime → Prop} {events : List (TickEvent W)}

theorem tickRun_inv (run : TickRun dialect cron events s) : TickInv dialect cron s := by
  induction run with
  | start => exact tickInv_start
  | step _ step ih => exact tickInv_step ih step

theorem tickRun_tables (correct : cron.Correct occurs) (run : TickRun dialect cron events s) : TablesOk cron occurs s.tables (fired events) := by
  induction run with
  | start => exact tablesOk_start
  | @step events event s t earlier step ih =>
    rw [fired_snoc]
    cases step with
    | register ok =>
      rw [show TickEvent.firings .registered = [] from rfl, List.append_nil]
      exact ih.register correct ok
    | commit ticking =>
      obtain ⟨hrows, hids, hfired⟩ := (tickRun_inv earlier).committing ticking
      exact ih.fireAll correct hrows hids hfired
    | lock | selectPostgres | selectSqlite | insert | update | fail =>
      refine (List.append_nil (fired events)).symm ▸ ?_
      exact ih

end Runs

end Ticks

/-! ### A task of every minute -/

/-- The `cron` crate on "* * * * *". -/
def everyMinute : Cron Unit where
  fromStr expression := if expression = "0 * * * * *" then .ok () else .error "Invalid expression"
  after _ t := some ⟨(t.nanos / 60000000000 + 1) * 60000000000⟩

theorem everyMinute_correct : everyMinute.Correct fun _ t => 60000000000 ∣ t.nanos := by
  rintro _ t _ ⟨⟩
  refine ⟨Int.dvd_mul_left _ _, ?_, fun v hv hlt => ?_⟩
  · change t.nanos < (t.nanos / 60000000000 + 1) * 60000000000
    omega
  · change (t.nanos / 60000000000 + 1) * 60000000000 ≤ v.nanos
    change t.nanos < v.nanos at hlt
    omega

def minutely : RecurringTask where
  id := 1
  taskName := "send_mail"
  payload := "null"
  cronExpr := "* * * * *"
  nextRunAt := ⟨60000000000⟩
  lastRunAt := none
  enabled := true

theorem minutely_fired : ∃ (events : List (TickEvent Bool)) (s : Ticks Bool), TickRun .sqlite everyMinute events s ∧
    firedAt (fired events) 1 = [⟨60000000000⟩] := by
  have registered : registerRecurring everyMinute "send_mail" "null" "* * * * *" ⟨0⟩ = .ok { minutely with id := 0 } := by
    decide
  have due : dueTasks (Recurrences.insert Keyed.empty { minutely with id := 0 }) ⟨60000000000⟩ (fun _ => false) = [minutely] :=
    List.mergeSort_singleton _
  have fires : fireRow everyMinute minutely = .ok ⟨minutely, ⟨120000000000⟩⟩ := by decide
  have selected := TickRun.step (.step .start (.register registered rfl)) (.selectSqlite (w := true) rfl rfl ⟨60000000000⟩)
  have inserted := TickRun.step selected (.insert (w := true) (congrArg (TickPhase.ticking 1 · []) due) fires (.first rfl rfl rfl))
  exact ⟨_, _, .step (.step inserted (.update (w := true) rfl)) (.commit (w := true) rfl), rfl⟩

end Djangors.Tasks
