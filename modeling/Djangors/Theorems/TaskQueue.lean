import Djangors.Tasks.Queue
import Djangors.Lib.Lists

/-! # The task queue is safe

One statement of a worker keeps an invariant over the rows, the locks and the phases of all workers. Rows that
a worker has read but not locked may change, but then its `UPDATE` is refused. -/

namespace Djangors.Tasks
open Db

theorem nextTask_some {queue : Queue} {now : DateTime} {locked : Int → Bool} {task : QueuedTask}
    (h : nextTask queue now locked = some task) :
    task ∈ queue.rows ∧ task.status = .pending ∧ task.scheduledAt.nanos ≤ now.nanos ∧ locked task.id = false := by
  have hmem := List.mem_mergeSort.mp (List.mem_of_mem_head? h)
  rw [List.mem_filter] at hmem
  simpa [and_assoc] using hmem

/-! ### The invariant -/

section Invariant
variable {W : Type} {dialect : Dialect} {registry : Registry} {s t : State W} {w : W}

/-- What holds of every row. -/
structure RowOk (starts : Int → Nat) (row : QueuedTask) : Prop where
  starts_le : starts row.id ≤ row.attempts
  attempts_le : row.attempts ≤ row.maxAttempts
  pending_lt : row.status = .pending → row.attempts < row.maxAttempts

/-- The row of a claimed task is running, with the attempt of the claim. -/
def Running (s : State W) (task : QueuedTask) : Prop :=
  ∃ row ∈ s.queue.rows, row.id = task.id ∧ row.status = .running ∧ row.attempts = task.attempts ∧
    row.maxAttempts = task.maxAttempts

/-- The row that a claim has read is pending and due. -/
def Due (now : DateTime) (task : QueuedTask) : Prop := task.status = .pending ∧ task.scheduledAt.nanos ≤ now.nanos

/-- The worker holds a lock that covers the row. -/
def Locked (s : State W) (w : W) (id : Int) : Prop := ∃ lock, (w, lock) ∈ s.locks ∧ lock.covers id = true

/-- What a phase knows of the rows. On SQLite, a `SELECT` is good until something is committed. -/
def PhaseOk (dialect : Dialect) (s : State W) (w : W) : Phase → Prop
  | .idle => True
  | .selected now task version =>
    Due now task ∧ version ≤ s.version ∧ (dialect = .postgres → Locked s w task.id) ∧
      (dialect = .postgres ∨ version = s.version → task ∈ s.queue.rows)
  | .updated now task => Due now task ∧ task ∈ s.queue.rows ∧ Locked s w task.id
  | .claimed task => Running s task ∧ s.starts task.id < task.attempts
  | .started task => Running s task

structure Inv (dialect : Dialect) (s : State W) : Prop where
  row : ∀ row ∈ s.queue.rows, RowOk s.starts row
  fresh : ∀ id, s.queue.nextId ≤ id → s.starts id = 0
  exclusive : Locks.Exclusive Lock.covers s.locks
  phase : ∀ w, PhaseOk dialect s w (s.phase w)
  held_once : ∀ v w task other, (s.phase v).held = some task → (s.phase w).held = some other → task.id = other.id → v = w
  due : ∀ claim ∈ s.claims, ∃ row ∈ s.queue.rows, row.id = claim.1 ∧ row.scheduledAt.nanos ≤ claim.2.nanos

theorem PhaseOk.running {p : Phase} {task : QueuedTask} (h : PhaseOk dialect s w p) (held : p.held = some task) :
    Running s task := by
  cases p with
  | claimed | started =>
    cases held
    first | exact h.1 | exact h
  | idle | selected | updated => cases held

/-- What a phase knows stays true when other rows change. -/
theorem PhaseOk.write {p : Phase} {id : Int} {change : Change} (h : PhaseOk dialect s w p)
    (unlocked : ¬ Locked s w id) (unheld : ∀ task, p.held = some task → task.id ≠ id)
    (hqueue : t.queue = s.queue.update id change) (hversion : t.version = s.version + 1)
    (hlocks : ∀ lock, (w, lock) ∈ t.locks ↔ (w, lock) ∈ s.locks) (hstarts : t.starts = s.starts) :
    PhaseOk dialect t w p := by
  have hlocked : ∀ id, Locked t w id ↔ Locked s w id := fun id => exists_congr fun lock => and_congr_left' (hlocks lock)
  have hother : ∀ row ∈ s.queue.rows, row.id ≠ id → row ∈ t.queue.rows := by
    intro row hrow hne
    rw [hqueue]
    exact Keyed.mem_update_of_ne hrow hne
  have hrunning : ∀ task, task.id ≠ id → Running s task → Running t task := by
    rintro task hne ⟨row, hrow, hid, hrest⟩
    exact ⟨row, hother row hrow (hid ▸ hne), hid, hrest⟩
  cases p with
  | idle => trivial
  | selected now task version =>
    obtain ⟨hdue, hle, hlock, hmem⟩ := h
    refine ⟨hdue, by omega, fun hd => (hlocked _).mpr (hlock hd), ?_⟩
    rintro (hd | heq)
    · refine hother task (hmem (.inl hd)) ?_
      rintro rfl
      exact unlocked (hlock hd)
    · omega
  | updated now task =>
    obtain ⟨hdue, hmem, hlock⟩ := h
    refine ⟨hdue, hother task hmem ?_, (hlocked _).mpr hlock⟩
    rintro rfl
    exact unlocked hlock
  | claimed task => exact ⟨hrunning task (unheld task rfl) h.1, by rw [hstarts]; exact h.2⟩
  | started task => exact hrunning task (unheld task rfl) h

/-- What a phase knows stays true when rows are added and locks of others come and go. -/
theorem PhaseOk.mono {p : Phase} (h : PhaseOk dialect s w p) (hqueue : ∀ row ∈ s.queue.rows, row ∈ t.queue.rows)
    (hversion : s.version ≤ t.version) (hlocks : ∀ lock, (w, lock) ∈ s.locks → (w, lock) ∈ t.locks)
    (hstarts : ∀ task, p.held = some task → t.starts task.id = s.starts task.id) : PhaseOk dialect t w p := by
  have hlocked : ∀ {id}, Locked s w id → Locked t w id := fun ⟨lock, hlock, hcovers⟩ => ⟨lock, hlocks lock hlock, hcovers⟩
  have hrunning : ∀ {task}, Running s task → Running t task := fun ⟨row, hrow, hrest⟩ => ⟨row, hqueue row hrow, hrest⟩
  cases p with
  | idle => trivial
  | selected now task version =>
    obtain ⟨hdue, hle, hlock, hmem⟩ := h
    refine ⟨hdue, by omega, fun hd => hlocked (hlock hd), ?_⟩
    rintro (hd | heq)
    · exact hqueue task (hmem (.inl hd))
    · exact hqueue task (hmem (.inr (by omega)))
  | updated now task => exact ⟨h.1, hqueue task h.2.1, hlocked h.2.2⟩
  | claimed task => exact ⟨hrunning h.1, by rw [hstarts task rfl]; exact h.2⟩
  | started task => exact hrunning h

theorem inv_start : Inv dialect (State.start : State W) where
  row _ hrow := nomatch hrow
  fresh _ _ := rfl
  exclusive := Locks.exclusive_nil
  phase _ := trivial
  held_once _ _ _ _ held := nomatch held
  due _ hclaim := nomatch hclaim

theorem inv_enqueue {taskName payload : String} {createdAt scheduledAt : DateTime} (inv : Inv dialect s)
    (hqueue : t.queue = s.queue.insert (enqueueScheduled taskName payload createdAt scheduledAt))
    (hversion : t.version = s.version + 1) (hlocks : t.locks = s.locks) (hphase : t.phase = s.phase)
    (hstarts : t.starts = s.starts) (hclaims : t.claims = s.claims) : Inv dialect t := by
  have kept : ∀ row ∈ s.queue.rows, row ∈ t.queue.rows := by
    intro row hrow
    rw [hqueue]
    exact Keyed.mem_insert.mpr (.inl hrow)
  constructor
  · intro row hrow
    rw [hqueue] at hrow
    rw [hstarts]
    rcases Keyed.mem_insert.mp hrow with hrow | rfl
    · exact inv.row row hrow
    · refine ⟨?_, show (0 : Int) ≤ 3 by decide, fun _ => show (0 : Int) < 3 by decide⟩
      rw [show s.starts _ = 0 from inv.fresh _ (Int.le_refl s.queue.nextId)]
      exact Int.le_refl 0
  · intro id hid
    rw [hstarts]
    rw [hqueue] at hid
    exact inv.fresh id (Int.le_trans (Int.le_of_lt (Int.lt_succ _)) hid)
  · rw [hlocks]
    exact inv.exclusive
  · intro v
    rw [hphase]
    refine (inv.phase v).mono kept (by omega) (fun lock hlock => by rwa [hlocks]) fun _ _ => by rw [hstarts]
  · rw [hphase]
    exact inv.held_once
  · rw [hclaims]
    intro claim hclaim
    obtain ⟨row, hrow, hdue⟩ := inv.due claim hclaim
    exact ⟨row, kept row hrow, hdue⟩

variable [DecidableEq W]

/-- The invariant, when one worker goes to another phase. -/
theorem Inv.next {p : Phase} (inv : Inv dialect s) (hphase : t.phase = Function.update s.phase w p)
    (row : ∀ row ∈ t.queue.rows, RowOk t.starts row) (fresh : ∀ id, t.queue.nextId ≤ id → t.starts id = 0)
    (exclusive : Locks.Exclusive Lock.covers t.locks) (ok : PhaseOk dialect t w p)
    (others : ∀ v, v ≠ w → PhaseOk dialect t v (s.phase v))
    (unheld : ∀ task, p.held = some task → ∀ v other, v ≠ w → (s.phase v).held = some other → other.id ≠ task.id)
    (due : ∀ claim ∈ t.claims, ∃ row ∈ t.queue.rows, row.id = claim.1 ∧ row.scheduledAt.nanos ≤ claim.2.nanos) :
    Inv dialect t where
  row := row
  fresh := fresh
  exclusive := exclusive
  phase v := by
    rw [hphase]
    by_cases hv : v = w
    · subst hv
      rwa [Function.update_self]
    · rw [Function.update_of_ne hv]
      exact others v hv
  held_once u v task other hu hv hid := by
    rw [hphase] at hu hv
    by_cases huw : u = w <;> by_cases hvw : v = w
    · exact huw.trans hvw.symm
    · subst huw
      rw [Function.update_self] at hu
      rw [Function.update_of_ne hvw] at hv
      exact absurd hid.symm (unheld task hu v other hvw hv)
    · subst hvw
      rw [Function.update_self] at hv
      rw [Function.update_of_ne huw] at hu
      exact absurd hid (unheld other hv u task huw hu)
    · rw [Function.update_of_ne huw] at hu
      rw [Function.update_of_ne hvw] at hv
      exact inv.held_once u v task other hu hv hid
  due := due

/-- A row changes while no other worker has it. -/
theorem Inv.write {p : Phase} {id : Int} {change : Change} (inv : Inv dialect s)
    (hqueue : t.queue = s.queue.update id change) (hversion : t.version = s.version + 1) (hstarts : t.starts = s.starts)
    (hphase : t.phase = Function.update s.phase w p)
    (hlocks : ∀ v, v ≠ w → ∀ lock, (v, lock) ∈ t.locks ↔ (v, lock) ∈ s.locks)
    (exclusive : Locks.Exclusive Lock.covers t.locks) (unlocked : ∀ v, v ≠ w → ¬ Locked s v id)
    (unheld : ∀ v task, v ≠ w → (s.phase v).held = some task → task.id ≠ id)
    (hrow : ∀ row ∈ s.queue.rows, row.id = id → RowOk s.starts (change.apply row)) (ok : PhaseOk dialect t w p)
    (held : ∀ task, p.held = some task → task.id = id)
    (due : ∀ claim ∈ t.claims, ∃ row ∈ s.queue.rows, row.id = claim.1 ∧ row.scheduledAt.nanos ≤ claim.2.nanos) :
    Inv dialect t := by
  refine inv.next hphase ?_ ?_ exclusive ok ?_ ?_ ?_
  · intro row hmem
    rw [hqueue] at hmem
    obtain ⟨old, hold, rfl⟩ := Keyed.mem_update.mp hmem
    rw [hstarts]
    split
    · exact hrow old hold ‹_›
    · exact inv.row old hold
  · rw [hqueue, hstarts]
    exact inv.fresh
  · exact fun v hv => (inv.phase v).write (unlocked v hv) (fun task => unheld v task hv) hqueue hversion (hlocks v hv) hstarts
  · intro task htask v other hv hother
    rw [held task htask]
    exact unheld v other hv hother
  · intro claim hclaim
    obtain ⟨row, hmem, hid, hle⟩ := due claim hclaim
    rw [hqueue]
    by_cases heq : row.id = id
    · subst heq
      exact ⟨change.apply row, Keyed.mem_update_self hmem, hid, hle⟩
    · exact ⟨row, Keyed.mem_update_of_ne hmem heq, hid, hle⟩

/-- A worker goes on without a write. -/
theorem Inv.goto {p : Phase} (inv : Inv dialect s) (hqueue : t.queue = s.queue) (hversion : t.version = s.version)
    (hstarts : t.starts = s.starts) (hclaims : t.claims = s.claims) (hphase : t.phase = Function.update s.phase w p)
    (hlocks : ∀ v, v ≠ w → ∀ lock, (v, lock) ∈ s.locks → (v, lock) ∈ t.locks)
    (exclusive : Locks.Exclusive Lock.covers t.locks) (ok : PhaseOk dialect t w p) (unheld : p.held = none) :
    Inv dialect t := by
  refine inv.next hphase ?_ ?_ exclusive ok ?_ (fun task htask => ?_) ?_
  · rw [hqueue, hstarts]
    exact inv.row
  · rw [hqueue, hstarts]
    exact inv.fresh
  · exact fun v hv => (inv.phase v).mono (fun row hrow => hqueue ▸ hrow) (Nat.le_of_eq hversion.symm) (hlocks v hv)
      fun _ _ => by rw [hstarts]
  · rw [unheld] at htask
    cases htask
  · rw [hqueue, hclaims]
    exact inv.due

/-- `run_once` ends: the row of the held task is written. -/
theorem Inv.finish {task : QueuedTask} {change : Change} (inv : Inv dialect s) (held : (s.phase w).held = some task)
    (free : s.locked task.id = false) (attempts : change.attempts = none)
    (pending : change.status = .pending → task.attempts < task.maxAttempts) :
    Inv dialect (s.write w task.id change .idle) := by
  obtain ⟨row, hrow, hid, -, hattempts, hmax⟩ := (inv.phase w).running held
  refine inv.write rfl rfl rfl rfl (fun _ _ _ => Iff.rfl) inv.exclusive ?_ ?_ ?_ trivial nofun inv.due
  · rintro v - ⟨lock, hlock, hcovers⟩
    rw [Locks.locked_eq_false.mp free _ hlock] at hcovers
    cases hcovers
  · intro v other hv hother heq
    exact hv (inv.held_once v w other task hother held heq)
  · intro other hother heq
    obtain rfl := Keyed.eq_of_key hother hrow (heq.trans hid.symm)
    obtain ⟨hstarts, hle, -⟩ := inv.row other hother
    rw [show change.apply other = { other with
      status := change.status, errorMessage := change.errorMessage.getD other.errorMessage } by rw [Change.apply, attempts]; rfl]
    exact ⟨hstarts, hle, fun h => by rw [hattempts, hmax]; exact pending h⟩

theorem inv_step (inv : Inv dialect s) (step : Step dialect registry s t) : Inv dialect t := by
  cases step with
  | enqueue taskName payload createdAt scheduledAt => exact inv_enqueue inv rfl rfl rfl rfl rfl rfl
  | @selectPostgres w task postgres idle now found =>
    obtain ⟨hmem, hpending, hdue, hfree⟩ := nextTask_some found
    refine inv.goto rfl rfl rfl rfl rfl (fun _ _ _ => List.mem_cons_of_mem _) ?_
      ⟨⟨hpending, hdue⟩, Nat.le_refl _, fun _ => ?_, fun _ => hmem⟩ rfl
    · refine inv.exclusive.acquire_one fun id hid => ?_
      rw [← beq_iff_eq.mp hid]
      exact hfree
    · exact ⟨_, List.mem_cons_self .., beq_self_eq_true _⟩
  | @selectSqlite w task sqlite idle now found =>
    obtain ⟨hmem, hpending, hdue, -⟩ := nextTask_some found
    refine inv.goto rfl rfl rfl rfl rfl (fun _ _ _ => id) inv.exclusive
      ⟨⟨hpending, hdue⟩, Nat.le_refl _, fun postgres => ?_, fun _ => hmem⟩ rfl
    rw [sqlite] at postgres
    cases postgres
  | @updatePostgres w now task version postgres selected =>
    obtain ⟨hdue, -, hlock, hmem⟩ : PhaseOk dialect s w (.selected now task version) := selected ▸ inv.phase w
    exact inv.goto rfl rfl rfl rfl rfl (fun _ _ _ => id) inv.exclusive ⟨hdue, hmem (.inl postgres), hlock postgres⟩ rfl
  | @updateSqlite w now task sqlite selected free =>
    obtain ⟨hdue, -, -, hmem⟩ : PhaseOk dialect s w (.selected now task s.version) := selected ▸ inv.phase w
    refine inv.goto rfl rfl rfl rfl rfl (fun v _ lock hlock => ?_) ?_ ⟨hdue, hmem (.inr rfl), _, List.mem_cons_self .., rfl⟩ rfl
    · rw [free] at hlock
      cases hlock
    · exact Locks.exclusive_nil.acquire_one fun _ _ => rfl
  | @commit w now task updated answered =>
    obtain ⟨⟨hpending, hdue⟩, hmem, lock, hlock, hcovers⟩ : PhaseOk dialect s w (.updated now task) := updated ▸ inv.phase w
    obtain ⟨hstarts, hle, hlt⟩ := inv.row task hmem
    have hclaimed : (claimChange task).apply task ∈ (s.queue.update task.id (claimChange task)).rows :=
      Keyed.mem_update_self hmem
    refine inv.write rfl rfl rfl rfl ?_ inv.exclusive.release ?_ ?_ ?_ ?_ ?_ ?_
    · intro v hv other
      exact Locks.mem_release.trans (and_iff_left hv)
    · rintro v hv ⟨other, hother, hcovers'⟩
      rw [inv.exclusive _ hlock _ hother (Ne.symm hv) task.id hcovers] at hcovers'
      cases hcovers'
    · intro v other hv hother heq
      obtain ⟨row, hrow, hid, hrunning, -⟩ := (inv.phase v).running hother
      rw [Keyed.eq_of_key hrow hmem (hid.trans heq), hpending] at hrunning
      cases hrunning
    · intro row hrow heq
      obtain rfl := Keyed.eq_of_key hrow hmem heq
      exact ⟨Int.le_trans hstarts (Int.le_of_lt (Int.lt_succ _)), Int.add_one_le_of_lt (hlt hpending), nofun⟩
    · cases answered with
      | false => trivial
      | true => exact ⟨⟨_, hclaimed, rfl, rfl, rfl, rfl⟩, Int.lt_of_le_of_lt hstarts (Int.lt_succ _)⟩
    · cases answered with
      | false => exact nofun
      | true =>
        rintro _ ⟨⟩
        rfl
    · intro claim hclaim
      rcases List.mem_cons.mp hclaim with rfl | hclaim
      · exact ⟨task, hmem, rfl, hdue⟩
      · exact inv.due claim hclaim
  | @rollback w inTransaction =>
    exact inv.goto rfl rfl rfl rfl rfl (fun v hv lock hlock => Locks.mem_release.mpr ⟨hlock, hv⟩) inv.exclusive.release
      trivial rfl
  | @refuse w task message claimed refused free =>
    refine inv.finish (by rw [claimed]; rfl) free rfl fun h => ?_
    by_contra hnot
    rw [failedChange, if_neg hnot] at h
    cases h
  | @start w task claimed accepted =>
    obtain ⟨⟨row, hrow, hid, hrest⟩, hlt⟩ : PhaseOk dialect s w (.claimed task) := claimed ▸ inv.phase w
    have others : ∀ v other, v ≠ w → (s.phase v).held = some other → other.id ≠ task.id := fun v other hv hother heq =>
      hv (inv.held_once v w other task hother (by rw [claimed]; rfl) heq)
    refine inv.next rfl ?_ ?_ inv.exclusive ⟨row, hrow, hid, hrest⟩ ?_ ?_ inv.due
    · intro other hother
      obtain ⟨hstarts, hle, hpending⟩ := inv.row other hother
      refine ⟨?_, hle, hpending⟩
      change (Function.update s.starts task.id (s.starts task.id + 1) other.id : Int) ≤ other.attempts
      by_cases heq : other.id = task.id
      · obtain rfl := Keyed.eq_of_key hother hrow (heq.trans hid.symm)
        rw [heq, Function.update_self, hrest.2.1]
        exact Int.add_one_le_of_lt hlt
      · rwa [Function.update_of_ne heq]
    · intro id hle
      have hne : id ≠ task.id := fun heq => Int.not_le.mpr (s.queue.keys_lt row hrow) (hid ▸ heq ▸ hle)
      exact (Function.update_of_ne hne _ _).trans (inv.fresh id hle)
    · exact fun v hv => (inv.phase v).mono (fun _ => id) (Nat.le_refl _) (fun _ => id) fun other hother =>
        Function.update_of_ne (others v other hv hother) _ _
    · rintro _ ⟨⟩ v other hv hother
      exact others v other hv hother
  | @finish w task started outcome free =>
    refine inv.finish (by rw [started]; rfl) free ?_ fun h => ?_
    · cases outcome <;> rfl
    · by_contra hnot
      cases outcome with
      | ok => cases h
      | taskError | panicked | joinError =>
        rw [finishChange, failedChange, if_neg hnot] at h
        cases h
  | @lose w task held => exact inv.goto rfl rfl rfl rfl rfl (fun _ _ _ => id) inv.exclusive trivial rfl

theorem inv_reaches (inv : Inv dialect s) (h : Reaches dialect registry s t) : Inv dialect t := by
  induction h with
  | refl => exact inv
  | step _ step ih => exact inv_step ih step

end Invariant

/-! ### Safety -/

section Safety
variable {W : Type} [DecidableEq W] {dialect : Dialect} {registry : Registry} {s t : State W}

/-- What the queue promises of a state. -/
structure Safe (s : State W) : Prop where
  held_once : ∀ v w task other, (s.phase v).held = some task → (s.phase w).held = some other → task.id = other.id → v = w
  starts_le : ∀ row ∈ s.queue.rows, s.starts row.id ≤ row.attempts
  attempts_le : ∀ row ∈ s.queue.rows, row.attempts ≤ row.maxAttempts
  pending_lt : ∀ row ∈ s.queue.rows, row.status = .pending → row.attempts < row.maxAttempts
  due : ∀ claim ∈ s.claims, ∃ row ∈ s.queue.rows, row.id = claim.1 ∧ row.scheduledAt.nanos ≤ claim.2.nanos

/-- A task that is completed or has failed. -/
def Final (row : QueuedTask) : Prop := row.status = .completed ∨ row.status = .failed

theorem Queue.final_update {queue : Queue} {task row : QueuedTask} {change : Change} (hrow : row ∈ queue.rows)
    (final : Final row) (htask : task ∈ queue.rows) (open_ : ¬ Final task) : row ∈ (queue.update task.id change).rows := by
  refine Keyed.mem_update_of_ne hrow fun heq => ?_
  rw [Keyed.eq_of_key hrow htask heq] at final
  exact open_ final

/-- A step leaves the final rows. -/
theorem final_step (inv : Inv dialect s) (step : Step dialect registry s t) {row : QueuedTask} (hrow : row ∈ s.queue.rows)
    (final : Final row) : row ∈ t.queue.rows := by
  have held : ∀ {w : W} {task : QueuedTask} {change : Change}, (s.phase w).held = some task →
      row ∈ (s.queue.update task.id change).rows := by
    intro w task change htask
    obtain ⟨other, hother, hid, hrunning, -⟩ := (inv.phase w).running htask
    rw [← hid]
    refine Queue.final_update hrow final hother ?_
    rintro (h | h) <;> rw [hrunning] at h <;> cases h
  cases step with
  | enqueue => exact Keyed.mem_insert.mpr (.inl hrow)
  | @commit w now task updated answered =>
    obtain ⟨⟨hpending, -⟩, hmem, -⟩ : PhaseOk dialect s w (.updated now task) := updated ▸ inv.phase w
    refine Queue.final_update hrow final hmem ?_
    rintro (h | h) <;> rw [hpending] at h <;> cases h
  | refuse claimed => exact held (by rw [claimed]; rfl)
  | finish started => exact held (by rw [started]; rfl)
  | selectPostgres | selectSqlite | updatePostgres | updateSqlite | rollback | start | lose => exact hrow

theorem final_reaches (inv : Inv dialect s) (h : Reaches dialect registry s t) {row : QueuedTask}
    (hrow : row ∈ s.queue.rows) (final : Final row) : row ∈ t.queue.rows := by
  induction h with
  | refl => exact hrow
  | step earlier step ih => exact final_step (inv_reaches inv earlier) step ih final

/-- Every state that workers reach is safe, and a final row stays as it is. -/
theorem queue_safe (h : Reaches dialect registry State.start s) :
    Safe s ∧ ∀ t, Reaches dialect registry s t → ∀ row ∈ s.queue.rows, Final row → row ∈ t.queue.rows := by
  have inv := inv_reaches inv_start h
  refine ⟨⟨inv.held_once, fun row hrow => (inv.row row hrow).starts_le, fun row hrow => (inv.row row hrow).attempts_le,
    fun row hrow => (inv.row row hrow).pending_lt, inv.due⟩, fun t ht row hrow final => final_reaches inv ht hrow final⟩

/-- The first mail of a queue. -/
def mail : QueuedTask := { enqueueScheduled "send_mail" "null" ⟨0⟩ ⟨5⟩ with id := 1 }

/-- A worker claims a mail that is due. -/
theorem mail_claimed : ∃ s : State Bool, (s.phase true).held = some mail.claimed ∧ Safe s := by
  have found : nextTask (Queue.insert Keyed.empty (enqueueScheduled "send_mail" "null" ⟨0⟩ ⟨5⟩)) ⟨5⟩ (fun _ => false) = some mail :=
    congrArg List.head? (List.mergeSort_singleton mail)
  have claimed : ∃ s : State Bool, Reaches .postgres ⟨fun _ => true, fun _ => none⟩ State.start s ∧
      (s.phase true).held = some mail.claimed :=
    ⟨_, .step (.step (.step (.step .refl (.enqueue "send_mail" "null" ⟨0⟩ ⟨5⟩ rfl))
      (.selectPostgres (w := true) rfl rfl ⟨5⟩ found)) (.updatePostgres (w := true) rfl rfl)) (.commit (w := true) rfl true), rfl⟩
  obtain ⟨s, h, held⟩ := claimed
  exact ⟨s, held, (queue_safe h).1⟩

end Safety

end Djangors.Tasks
