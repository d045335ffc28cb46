import Djangors.Auth.Lockout
import Djangors.Theorems.LockoutAutomaton

/-! # Failures counted side by side

A call writes the count that it has read and one more. As long as it finds no more failures than it has read, the
table counts every failure; and a login whose `DELETE` finds the row that it has read succeeds. -/

namespace Djangors.Auth

/-! ### Counts -/

theorem toInt_increment {x : Int32} (h : x.toInt < 2 ^ 31 - 1) : (x + 1).toInt = x.toInt + 1 := by
  have hlow := x.le_toInt
  have hone : (1 : Int32).toInt = 1 := rfl
  rw [Int32.toInt_add, hone]
  exact Int.bmod_eq_of_le (by omega) (by omega)

theorem toNat_of_nonneg (x : Int32) (h : 0 ≤ x.toInt) : (x.toUInt32.toNat : Int) = x.toInt := by
  rw [Int32.toNat_toUInt32_of_le (Int32.le_iff_toInt_le.mpr h)]
  exact Int.toNat_of_nonneg h

section Written
variable {b : PersistentLockoutBackend} {now : DateTime} {read : LoginLockout} {n : Nat}

/-- The row that a failing call writes in the place of one that it has read. -/
def PersistentLockoutBackend.written (b : PersistentLockoutBackend) (now : DateTime) (read : LoginLockout) : LoginLockout :=
  if read.activeStreak now then b.increment now read else b.restart now read

theorem written_id : (b.written now read).id = read.id := by
  unfold PersistentLockoutBackend.written
  split <;> rfl

theorem written_username : (b.written now read).username = read.username := by
  unfold PersistentLockoutBackend.written
  split <;> rfl

theorem written_count (b : PersistentLockoutBackend) (now : DateTime) (hsmall : read.failedAttempts.toInt < 2 ^ 31 - 1) :
    (b.written now read).failedAttempts.toInt = read.streak now + 1 := by
  unfold PersistentLockoutBackend.written LoginLockout.streak
  split
  · exact toInt_increment hsmall
  · rfl

/-- A row that counts enough failures is written with a lock. -/
theorem written_lock (b : PersistentLockoutBackend) (hsmall : read.failedAttempts.toInt < 2 ^ 31 - 1) (hstreak : 0 ≤ read.streak now)
    (hn : b.maxAttempts.toNat ≤ n) (hle : (n : Int) ≤ read.streak now + 1) :
    (b.written now read).lockedUntil.isSome = true := by
  have hcount := written_count b now hsmall
  unfold PersistentLockoutBackend.written at hcount ⊢
  split at hcount
  · rename_i hactive
    rw [if_pos hactive]
    have hnext : (read.failedAttempts + 1).toInt = read.streak now + 1 := hcount
    have hnat := toNat_of_nonneg (read.failedAttempts + 1) (by omega)
    have hmax : b.maxAttempts ≤ (read.failedAttempts + 1).toUInt32 := UInt32.le_iff_toNat_le.mpr (by omega)
    rw [PersistentLockoutBackend.increment, if_pos hmax]
    rfl
  · rename_i hexpired
    have hone : (1 : Int) = read.streak now + 1 := hcount
    have hmax : b.maxAttempts ≤ 1 := b.toNat_le_one.mpr (by omega)
    rw [if_neg hexpired, PersistentLockoutBackend.restart, PersistentLockoutBackend.firstLock, if_pos hmax]
    rfl

end Written

namespace Race
variable {ι U : Type} [DecidableEq ι] {b : PersistentLockoutBackend} {precision : DateTime → DateTime} {name : String}
  {password : ι → String} {inner : ι → Authentication U} {s s' : Race ι U}

/-- How far a call has come. -/
inductive Stage (b : PersistentLockoutBackend) (name password : String) (result : Authentication U) (r : Reading) :
    LockoutAction U → Prop
  | called : Stage b name password result r (b.authenticate r.now name password)
  | unlocked (own : ∀ read ∈ r.existing, read.username = name) (free : r.existing.bind (·.inForce r.now) = none) :
      Stage b name password result r (.call (.authenticate name password) (b.record r.now name r.existing))
  | answered (own : ∀ read ∈ r.existing, read.username = name) (free : r.existing.bind (·.inForce r.now) = none) :
      Stage b name password result r (b.record r.now name r.existing result)
  | rejected {lockedUntil : DateTime} (lock : r.existing.bind (·.inForce r.now) = some lockedUntil) :
      Stage b name password result r (.done (.error (.accountLocked (retryAfterSecs lockedUntil r.now))))
  | ended (free : r.existing.bind (·.inForce r.now) = none) : Stage b name password result r (.done result)

/-- The row counts the failures, as long as its lock has not expired. -/
def Covers (b : PersistentLockoutBackend) (s : Race ι U) (row : LoginLockout) : Prop :=
  row.activeStreak s.clock = true →
    (s.failures : Int) ≤ row.failedAttempts.toInt ∧ (b.maxAttempts.toNat ≤ s.failures → row.lockedUntil.isSome = true)

/-- What every state satisfies that undisturbed calls reach. -/
structure Sound (b : PersistentLockoutBackend) (name : String) (password : ι → String) (inner : ι → Authentication U)
    (s : Race ι U) : Prop where
  positive : ∀ row, s.row? name = some row → 0 < row.failedAttempts.toInt
  covers : s.failures = 0 ∨ ∃ row, s.row? name = some row ∧ row.activeStreak s.clock = true ∧ Covers b s row
  stage : ∀ i p, s.threads i = some p → Stage b name (password i) (inner i) (s.readings i) p

omit [DecidableEq ι] in
/-- An expired lock leaves nothing to count. -/
theorem settle_sound (positive : ∀ row, s.row? name = some row → 0 < row.failedAttempts.toInt)
    (covers : s.failures = 0 ∨ ∃ row, s.row? name = some row ∧ Covers b s row)
    (stage : ∀ i p, s.threads i = some p → Stage b name (password i) (inner i) (s.readings i) p) :
    Sound b name password inner (s.settle name) := by
  unfold settle
  split
  · rename_i hactive
    refine ⟨positive, covers.imp id ?_, stage⟩
    rintro ⟨row, hrow, hcovers⟩
    rw [hrow] at hactive
    exact ⟨row, hrow, hactive, hcovers⟩
  · exact ⟨positive, .inl rfl, stage⟩

omit [DecidableEq ι] in
theorem failures_of_none (h : Sound b name password inner s) (hrow : s.row? name = none) : s.failures = 0 := by
  rcases h.covers with h | ⟨row, hsome, -⟩
  · exact h
  · rw [hrow] at hsome
    cases hsome

omit [DecidableEq ι] in
theorem failures_le_streak {row : LoginLockout} (h : Sound b name password inner s) (hrow : s.row? name = some row) :
    (s.failures : Int) ≤ row.streak s.clock := by
  rw [LoginLockout.streak]
  rcases h.covers with hzero | ⟨row', hrow', hactive, hcovers⟩
  · have := h.positive row hrow
    rw [hzero]
    split <;> omega
  · cases hrow.symm.trans hrow'
    rw [if_pos hactive]
    exact (hcovers hactive).1

/-- The other calls stay where they are. -/
theorem next_stage {i : ι} {p : LockoutAction U} {r : Reading} {threads : ι → Option (LockoutAction U)}
    {readings : ι → Reading} (h : Sound b name password inner s) (hp : Stage b name (password i) (inner i) r p)
    (hthreads : threads = Function.update s.threads i (some p)) (hreadings : readings = Function.update s.readings i r)
    (j : ι) (q : LockoutAction U) (hq : threads j = some q) : Stage b name (password j) (inner j) (readings j) q := by
  rw [hthreads] at hq
  rw [hreadings]
  by_cases hj : j = i
  · cases hj
    rw [Function.update_self] at hq ⊢
    exact Option.some.inj hq ▸ hp
  · rw [Function.update_of_ne hj] at hq ⊢
    exact h.stage j q hq

/-- A call that leaves the table as it is. -/
theorem read_sound {i : ι} {call : LockoutCall} {rest : call.Answer U → LockoutAction U} {r : Reading}
    (h : Sound b name password inner s) (htable : (s.next precision name inner i call rest).table = s.table)
    (hfailures : (s.next precision name inner i call rest).failures = s.failures)
    (hreadings : (s.next precision name inner i call rest).readings = Function.update s.readings i r)
    (hrest : Stage b name (password i) (inner i) r (rest (call.exec precision (inner i) ⟨s.table, []⟩).2)) :
    Sound b name password inner ((s.next precision name inner i call rest).settle name) := by
  have hrow : (s.next precision name inner i call rest).row? name = s.row? name := by rw [row?, htable, row?]
  refine settle_sound ?_ ?_ (next_stage h hrest rfl hreadings)
  · rw [hrow]
    exact h.positive
  · rw [hrow]
    refine h.covers.imp (hfailures ▸ ·) ?_
    rintro ⟨row, hrow, -, hcovers⟩
    refine ⟨row, hrow, fun hactive => ?_⟩
    rw [hfailures]
    exact hcovers hactive

/-- A call that writes the row and counts a failure. -/
theorem write_sound {i : ι} {call : LockoutCall} {rest : call.Answer U → LockoutAction U}
    (h : Sound b name password inner s) (row : LoginLockout)
    (hrow : (s.next precision name inner i call rest).row? name = some row)
    (hfailures : (s.next precision name inner i call rest).failures = s.failures + 1)
    (hreadings : (s.next precision name inner i call rest).readings = Function.update s.readings i (s.readings i))
    (hrest : Stage b name (password i) (inner i) (s.readings i) (rest (call.exec precision (inner i) ⟨s.table, []⟩).2))
    (hcount : (s.failures : Int) + 1 ≤ row.failedAttempts.toInt)
    (hlock : b.maxAttempts.toNat ≤ s.failures + 1 → row.lockedUntil.isSome = true) :
    Sound b name password inner ((s.next precision name inner i call rest).settle name) := by
  refine settle_sound ?_ (.inr ⟨row, hrow, fun _ => ?_⟩) (next_stage h hrest rfl hreadings)
  · rw [hrow]
    rintro _ ⟨⟩
    omega
  · rw [hfailures]
    exact ⟨by omega, hlock⟩

/-- What a call that has been answered still has to do. -/
theorem record_cases (b : PersistentLockoutBackend) (name : String) (now : DateTime) (existing : Option LoginLockout) (result : Authentication U) :
    b.record now name existing result = .done result ∨
    (∃ read, existing = some read ∧ b.record now name existing result = .call (.delete read.id) (finish result)) ∨
    (∃ read, existing = some read ∧
      b.record now name existing result = .call (.update (b.written now read)) (finish result)) ∨
    existing = none ∧ b.record now name existing result = .call (.save (b.firstFailure now name)) (finish result) := by
  unfold PersistentLockoutBackend.record PersistentLockoutBackend.written
  split
  · rename_i read
    exact .inr (.inl ⟨read, rfl, rfl⟩)
  · exact .inl rfl
  · rename_i read
    refine .inr (.inr (.inl ⟨read, rfl, ?_⟩))
    split
    · rename_i hactive
      rw [if_pos hactive]
    · rename_i hexpired
      rw [if_neg hexpired]
  · exact .inr (.inr (.inr ⟨rfl, rfl⟩))
  · exact .inl rfl

/-- The last call of an authentication finds what it has read. -/
theorem write_step {i : ι} {call : LockoutCall} {rest : call.Answer U → LockoutAction U}
    (h : Sound b name password inner s) (own : ∀ read ∈ (s.readings i).existing, read.username = name)
    (free : (s.readings i).existing.bind (·.inForce (s.readings i).now) = none)
    (hcall : b.record (s.readings i).now name (s.readings i).existing (inner i) = .call call rest)
    (found : FindsRead name s i call) :
    Sound b name password inner ((s.next precision name inner i call rest).settle name) := by
  have ended : Stage b name (password i) (inner i) (s.readings i) (.done (inner i)) := .ended free
  rcases record_cases b name (s.readings i).now (s.readings i).existing (inner i) with
    hrec | ⟨read, hread, hrec⟩ | ⟨read, hread, hrec⟩ | ⟨hread, hrec⟩
  · rw [hrec] at hcall
    cases hcall
  · rw [hrec] at hcall
    cases hcall
    obtain ⟨row, hrow, hid⟩ := found
    obtain ⟨hdelete, hrows⟩ := delete_row hrow
    rw [hid] at hdelete hrows
    have hnone : (s.next precision name inner i (.delete read.id) (finish (inner i))).row? name = none := by
      rw [row?, next]
      simp only [exec_delete, hdelete, hrows, Function.update_self]
    have hfailures : (s.next precision name inner i (.delete read.id) (finish (inner i))).failures = 0 := by
      rw [next]
      simp only [exec_delete, hdelete, counted]
    refine settle_sound (fun row' hrow' => ?_) (.inl hfailures) (next_stage h ended ?_ rfl)
    · rw [hnone] at hrow'
      cases hrow'
    · rw [next]
      simp only [exec_delete, hdelete, finish]
  · rw [hrec] at hcall
    cases hcall
    obtain ⟨_, row, hread', hrow, hid, hstreak, hsmall⟩ := found
    cases hread.symm.trans hread'
    obtain ⟨table', hupdate, hrows⟩ := update_row precision (b.written (s.readings i).now read) hrow
      (written_username.trans (own read hread)) hid.symm
    have hle := failures_le_streak h hrow
    have hcount := written_count b (s.readings i).now hsmall
    refine write_sound h ((b.written (s.readings i).now read).stored precision) ?_ rfl rfl ?_ ?_ fun hmax => ?_
    · rw [row?, next]
      simp only [exec_update, hupdate, hrows, Function.update_self]
    · simp only [exec_update, hupdate]
      exact ended
    · have hstored : ((b.written (s.readings i).now read).stored precision).failedAttempts.toInt =
        read.streak (s.readings i).now + 1 := hcount
      omega
    · have hlock : (b.written (s.readings i).now read).lockedUntil.isSome = true :=
        written_lock b hsmall (by omega) hmax (by omega)
      rw [LoginLockout.stored, Option.isSome_map]
      exact hlock
  · rw [hrec] at hcall
    cases hcall
    have hrow : s.row? name = none := found
    have hzero := failures_of_none h hrow
    obtain ⟨table', saved, hsave, hrows⟩ := save_row precision (b.firstFailure (s.readings i).now name) hrow rfl
    refine write_sound h { (b.firstFailure (s.readings i).now name).stored precision with id := s.table.nextId } ?_ rfl rfl
      ?_ ?_ fun hmax => ?_
    · rw [row?, next]
      simp only [exec_save, hsave, hrows, Function.update_self]
    · simp only [exec_save, hsave]
      exact ended
    · have hone : ((b.firstFailure (s.readings i).now name).stored precision).failedAttempts.toInt = 1 := rfl
      rw [hzero, hone]
      decide
    · have hone : b.maxAttempts ≤ 1 := b.toNat_le_one.mpr (by omega)
      simp only [LoginLockout.stored, PersistentLockoutBackend.firstFailure, PersistentLockoutBackend.firstLock,
        if_pos hone, Option.map_some, Option.isSome_some]

/-- An event keeps the counts sound. -/
theorem advance_sound {e : Event ι} (h : Sound b name password inner s) (ok : Undisturbed name s e)
    (moved : s.advance b precision name password inner e = some s') : Sound b name password inner s' := by
  cases e with
  | start i =>
    rw [advance] at moved
    split at moved
    · cases moved
      exact ⟨h.positive, h.covers, next_stage (r := ⟨s.clock, none⟩) h .called rfl rfl⟩
    · cases moved
  | step i =>
    rw [advance] at moved
    split at moved
    · rename_i call rest hthread
      cases moved
      have hstage := h.stage i _ hthread
      have found := ok call rest hthread
      generalize hp : (Program.call call rest : LockoutAction U) = p at hstage
      cases hstage with
      | called =>
        cases hp
        refine read_sound h rfl rfl rfl ?_
        have own : ∀ read ∈ s.row? name, read.username = name := fun _ => UniqueTable.key_row?
        simp only [exec_first, PersistentLockoutBackend.check]
        cases hlock : (s.row? name).bind fun row => row.inForce (s.readings i).now with
        | none =>
          rw [row?] at hlock
          rw [hlock]
          exact .unlocked own hlock
        | some lockedUntil =>
          rw [row?] at hlock
          rw [hlock]
          exact .rejected hlock
      | unlocked own free =>
        cases hp
        exact read_sound (r := s.readings i) h rfl rfl rfl (.answered own free)
      | answered own free => exact write_step h own free hp.symm found
      | rejected => cases hp
      | ended => cases hp
    · cases moved
  | tick clock =>
    rw [advance] at moved
    split at moved
    · cases moved
      refine settle_sound h.positive (h.covers.imp id ?_) h.stage
      rintro ⟨row, hrow, hactive, hcovers⟩
      exact ⟨row, hrow, fun _ => hcovers hactive⟩
    · cases moved

theorem reaches_sound {s₀ : Race ι U} (h : Sound b name password inner s₀)
    (run : Reaches b precision name password inner (Undisturbed name) s₀ s) : Sound b name password inner s := by
  induction run with
  | refl => exact h
  | event _ ok moved ih => exact advance_sound ih ok moved

/-- Events that run are reached, when nothing is asked of them. -/
theorem reaches_run (events : List (Event ι)) {s₀ s₁ : Race ι U}
    (earlier : Reaches b precision name password inner (fun _ _ => True) s₀ s₁)
    (h : run b precision name password inner events s₁ = some s) :
    Reaches b precision name password inner (fun _ _ => True) s₀ s := by
  induction events generalizing s₁ with
  | nil => exact Option.some.inj h ▸ earlier
  | cons e events ih =>
    obtain ⟨s₂, hmoved, hrest⟩ := Option.bind_eq_some_iff.mp h
    exact ih (.event earlier trivial hmoved) hrest

end Race

open Race

/-- Undisturbed calls lose no failure: the table counts all of them, enough of them lock the account, and correct
    credentials for an account that was not locked are accepted. -/
theorem lockout_counts {ι U : Type} [DecidableEq ι] (b : PersistentLockoutBackend) (precision : DateTime → DateTime)
    (name : String) (password : ι → String) (inner : ι → Authentication U) (table : LockoutTable) (clock : DateTime)
    (hnew : table.row? name = none) (s : Race ι U)
    (run : Reaches b precision name password inner (Undisturbed name) (.start table clock) s) :
    (s.failures : Int) ≤ s.stored name ∧
    (0 < s.failures → b.maxAttempts.toNat ≤ s.failures → s.isLocked name = true) ∧
    ∀ i user answer, inner i = .ok (some user) → s.threads i = some (.done answer) →
      (s.readings i).existing.bind (·.inForce (s.readings i).now) = none → answer = .ok (some user) := by
  have hstart : Sound b name password inner (.start table clock) := by
    refine ⟨fun row hrow => ?_, .inl rfl, nofun⟩
    cases hnew.symm.trans hrow
  have hsound := reaches_sound hstart run
  refine ⟨?_, fun hpos hmax => ?_, fun i user answer hinner hthread hfree => ?_⟩
  · rw [stored]
    rcases hsound.covers with hzero | ⟨row, hrow, hactive, hcovers⟩
    · rw [hzero]
      cases hrow : s.row? name with
      | none => exact Int.le_refl _
      | some row => exact Int.le_of_lt (hsound.positive row hrow)
    · rw [hrow]
      exact (hcovers hactive).1
  · rcases hsound.covers with hzero | ⟨row, hrow, hactive, hcovers⟩
    · omega
    · obtain ⟨lockedUntil, hlock⟩ := Option.isSome_iff_exists.mp ((hcovers hactive).2 hmax)
      rw [LoginLockout.activeStreak, hlock, Option.all_some] at hactive
      rw [isLocked, hrow, Option.bind_some, LoginLockout.inForce, hlock, Option.filter_some, if_pos hactive]
      rfl
  · have hstage := hsound.stage i _ hthread
    generalize hp : (Program.done answer : LockoutAction U) = p at hstage
    cases hstage with
    | called => cases hp
    | unlocked => cases hp
    | answered own free =>
      rcases record_cases b name (s.readings i).now (s.readings i).existing (inner i) with
        hrec | ⟨read, hread, hrec⟩ | ⟨read, hread, hrec⟩ | ⟨hread, hrec⟩ <;> rw [hrec] at hp <;> cases hp
      exact hinner
    | rejected hlock =>
      rw [hfree] at hlock
      cases hlock
    | ended free =>
      cases hp
      exact hinner

/-- One attempt locks an account for a second. -/
def oneTry : PersistentLockoutBackend := ⟨1, 10 ^ 9⟩

/-- A wrong password locks the account. -/
theorem alice_counted :
    ∃ s : Race Unit Unit, s.failures = 1 ∧ ((s.failures : Int) ≤ s.stored "alice" ∧
      (0 < s.failures → oneTry.maxAttempts.toNat ≤ s.failures → s.isLocked "alice" = true) ∧
      ∀ i user answer, (Except.ok none : Authentication Unit) = .ok (some user) → s.threads i = some (.done answer) →
        (s.readings i).existing.bind (·.inForce (s.readings i).now) = none → answer = .ok (some user)) := by
  have undisturbed {s : Race Unit Unit} {call : LockoutCall} {rest : call.Answer Unit → LockoutAction Unit}
      (h : s.threads () = some (.call call rest)) (found : FindsRead "alice" s () call) :
      Undisturbed "alice" s (.step ()) := by
    intro call' rest' h'
    cases h.symm.trans h'
    exact found
  have start : Reaches oneTry id "alice" (fun _ : Unit => "guess") (fun _ => (.ok none : Authentication Unit))
    (Undisturbed "alice") (.start UniqueTable.empty ⟨0⟩) (.start UniqueTable.empty ⟨0⟩) := .refl
  have run := (((start.event (e := .start ()) trivial rfl).event (undisturbed rfl trivial) rfl).event
    (undisturbed rfl trivial) rfl).event (undisturbed rfl rfl) rfl
  exact ⟨_, rfl, lockout_counts oneTry id "alice" _ _ UniqueTable.empty ⟨0⟩ rfl _ run⟩

/-- Three attempts lock an account for a second. -/
def threeTries : PersistentLockoutBackend := ⟨3, 10 ^ 9⟩

/-- The third of three wrong passwords overwrites the count of the second one: the account is not locked. -/
theorem alice_failure_lost :
    ∃ s : Race (Fin 3) Unit, Reaches threeTries id "alice" (fun _ => "guess") (fun _ => .ok none) (fun _ _ => True)
        (.start UniqueTable.empty ⟨0⟩) s ∧
      (∀ i, s.threads i = some (.done (.ok none))) ∧ s.failures = 3 ∧ s.stored "alice" = 2 ∧ s.isLocked "alice" = false := by
  exact ⟨_, reaches_run [.start 0, .step 0, .step 0, .step 0, .start 1, .start 2, .step 1, .step 2, .step 1, .step 2,
    .step 1, .step 2] .refl rfl, fun | 0 => rfl | 1 => rfl | 2 => rfl, rfl, rfl, rfl⟩

/-- Two logins with the right password read the row of a failure, and the second one fails to delete it. -/
theorem alice_login_refused :
    ∃ s : Race (Fin 3) Unit, Reaches threeTries id "alice" (fun _ => "guess")
        (fun i => if i = 0 then .ok none else .ok (some ())) (fun _ _ => True) (.start UniqueTable.empty ⟨0⟩) s ∧
      (s.readings 2).existing.bind (·.inForce (s.readings 2).now) = none ∧
      s.threads 2 = some (.done (.error (.database (.notFound "LoginLockout")))) :=
  ⟨_, reaches_run [.start 0, .step 0, .step 0, .step 0, .start 1, .start 2, .step 1, .step 2, .step 1, .step 2,
    .step 1, .step 2] .refl rfl, rfl, rfl⟩

end Djangors.Auth
