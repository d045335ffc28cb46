import Djangors.Auth.Lockout

/-! # The lockout automaton

A row of the lockout table stands for an account of the reference machine: each attempt keeps them in step, and
gets the same answer. -/

namespace Djangors.Auth

/-! ### Statements -/

section Statements
variable {table : LockoutTable} (precision : DateTime → DateTime) {old : LoginLockout} (row : LoginLockout) {name : String}

theorem update_row (hold : table.row? name = some old) (hkey : row.username = name) (hid : row.id = old.id) :
    ∃ table', LockoutTable.update precision table row = (table', .ok ()) ∧
      table'.row? = Function.update table.row? name (some (row.stored precision)) := by
  obtain ⟨table', hreplace, hrow⟩ := UniqueTable.replace_row (row.stored precision) hold hkey hid
  have hfound : table.hasId row.id = true := hid ▸ UniqueTable.hasId_row hold
  rw [LockoutTable.update, if_pos hfound, hreplace]
  exact ⟨table', rfl, hrow⟩

omit precision row in
theorem delete_row (hold : table.row? name = some old) :
    LockoutTable.delete table old.id = (table.remove old.id, .ok ()) ∧
      (table.remove old.id).row? = Function.update table.row? name none := by
  rw [LockoutTable.delete, if_pos (UniqueTable.hasId_row hold)]
  exact ⟨rfl, UniqueTable.remove_row hold⟩

theorem save_row (hnew : table.row? name = none) (hkey : row.username = name) :
    ∃ table' saved, LockoutTable.save precision table row = (table', .ok saved) ∧
      table'.row? = Function.update table.row? name (some { row.stored precision with id := table.nextId }) := by
  obtain ⟨table', hinsert, hrow⟩ :=
    UniqueTable.insert_row (fun id => { row.stored precision with id := id }) (fun _ => rfl) hkey hnew
  rw [LockoutTable.save, hinsert]
  exact ⟨table', _, rfl, hrow⟩

end Statements

/-! ### Rows and accounts -/

section Rows
variable (b : PersistentLockoutBackend) (t : DateTime)

/-- A row stands for an account from a time on. -/
def Stands : Option LoginLockout → Account → Prop
  | none, a => a = .counting 0
  | some row, .counting n =>
    row.lockedUntil = none ∧ row.failedAttempts.toUInt32.toNat = n ∧ n < b.maxAttempts.toNat ∨
      n = 0 ∧ ∃ lockedUntil, row.lockedUntil = some lockedUntil ∧ lockedUntil.nanos ≤ t.nanos
  | some row, .locked lockedUntil => row.lockedUntil = some lockedUntil

variable {b t} {now : DateTime} {row? : Option LoginLockout} {row : LoginLockout} {a : Account} {n : Nat}

/-- What a row says at a later time. -/
theorem stands_at (h : Stands b t row? a) (hlater : t.nanos ≤ now.nanos) : Stands b now row? (a.at now) ∧
    (row?.bind (·.inForce now) = (a.at now).lock) := by
  cases row? with
  | none =>
    cases h
    exact ⟨rfl, rfl⟩
  | some row =>
    rw [Option.bind_some, LoginLockout.inForce]
    cases a with
    | locked lockedUntil =>
      have hlock : row.lockedUntil = some lockedUntil := h
      rw [hlock, Account.at, Option.filter_some]
      split
      · rename_i hlt
        rw [if_pos (decide_eq_true hlt)]
        exact ⟨hlock, rfl⟩
      · rename_i hge
        rw [if_neg (by simpa using hge)]
        exact ⟨.inr ⟨rfl, lockedUntil, hlock, Int.not_lt.mp hge⟩, rfl⟩
    | counting n =>
      rcases h with ⟨hlock, hcount⟩ | ⟨hn, lockedUntil, hlock, hpast⟩
      · rw [hlock]
        exact ⟨.inl ⟨hlock, hcount⟩, rfl⟩
      · have hexpired : ¬ now.nanos < lockedUntil.nanos := Int.not_lt.mpr (Int.le_trans hpast hlater)
        rw [hlock, Option.filter_some, if_neg (by simpa using hexpired)]
        exact ⟨.inr ⟨hn, lockedUntil, hlock, Int.le_trans hpast hlater⟩, rfl⟩

theorem stands_mono (h : Stands b t row? a) (hlater : t.nanos ≤ now.nanos) : Stands b now row? a := by
  cases row? with
  | none => exact h
  | some row =>
    cases a with
    | locked lockedUntil => exact h
    | counting n =>
      exact h.imp id fun ⟨hn, lockedUntil, hlock, hpast⟩ => ⟨hn, lockedUntil, hlock, Int.le_trans hpast hlater⟩

theorem PersistentLockoutBackend.toNat_le_one (b : PersistentLockoutBackend) : b.maxAttempts ≤ 1 ↔ b.maxAttempts.toNat ≤ 0 + 1 := UInt32.le_iff_toNat_le

/-- A count that starts again stands for one failure. -/
theorem stands_first {U : Type} {precision : DateTime → DateTime} (hcount : row.failedAttempts = 1)
    (hlock : row.lockedUntil = (b.firstLock now).map precision) :
    Stands b now (some row) (Account.after b precision 0 now (.ok none : Authentication U)) := by
  rw [PersistentLockoutBackend.firstLock] at hlock
  rw [Account.after]
  by_cases hmax : b.maxAttempts ≤ 1
  · rw [if_pos hmax] at hlock
    rw [if_pos (b.toNat_le_one.mp hmax)]
    exact hlock
  · rw [if_neg hmax] at hlock
    rw [if_neg (mt b.toNat_le_one.mpr hmax)]
    refine .inl ⟨hlock, by rw [hcount]; rfl, ?_⟩
    have := mt b.toNat_le_one.mpr hmax
    omega

/-- A streak that goes on stands for one failure more. -/
theorem stands_increment {U : Type} {precision : DateTime → DateTime} (hlock : row.lockedUntil = none)
    (hcount : row.failedAttempts.toUInt32.toNat = n) (hbelow : n < b.maxAttempts.toNat) :
    Stands b now (some ((b.increment now row).stored precision))
      (Account.after b precision n now (.ok none : Authentication U)) := by
  have hnext : (row.failedAttempts + 1).toUInt32.toNat = n + 1 := by
    have := b.maxAttempts.toNat_lt
    have hone : (1 : Int32).toUInt32.toNat = 1 := rfl
    rw [Int32.toUInt32_add, UInt32.toNat_add, hcount, hone]
    exact Nat.mod_eq_of_lt (by omega)
  have hmax : b.maxAttempts ≤ (row.failedAttempts + 1).toUInt32 ↔ b.maxAttempts.toNat ≤ n + 1 := by
    rw [UInt32.le_iff_toNat_le, hnext]
  rw [PersistentLockoutBackend.increment, LoginLockout.stored, hlock, Account.after]
  by_cases h : b.maxAttempts.toNat ≤ n + 1
  · rw [if_pos h, if_pos (hmax.mpr h)]
    exact rfl
  · rw [if_neg h, if_neg (mt hmax.mp h)]
    exact .inl ⟨rfl, hnext, by omega⟩

end Rows

/-! ### Attempts -/

section Attempts
variable {U : Type} {b : PersistentLockoutBackend} (precision : DateTime → DateTime) {now : DateTime}
  {w : LockoutWorld} {name : String} {n : Nat}

/-- What follows the answer of the backend inside writes the row that stands for the account after it. -/
theorem record_stands {row? : Option LoginLockout} (hrow : w.table.row? name = row?)
    (hstands : Stands b now row? (.counting n)) (result : Authentication U) (labels : List Unit) :
    ∃ w' row', (b.record now name row? result).run (fun _ call w => call.exec precision result w) labels w = (w', result) ∧
      w'.asked = w.asked ∧ w'.table.row? = Function.update w.table.row? name row' ∧
      Stands b now row' (Account.after b precision n now result) := by
  have hkeep : w.table.row? = Function.update w.table.row? name row? := by
    rw [← hrow, Function.update_eq_self]
  rcases result with e | _ | user
  · exact ⟨w, _, rfl, rfl, hkeep, hstands⟩
  · cases row? with
    | none =>
      cases hstands
      obtain ⟨table', saved, hsave, hnew⟩ := save_row precision (b.firstFailure now name) hrow rfl
      refine ⟨{ w with table := table' }, _, ?_, rfl, hnew, stands_first rfl rfl⟩
      simp only [PersistentLockoutBackend.record, Program.run_call, exec_save, hsave]
      rfl
    | some row =>
      have hkey := UniqueTable.key_row? hrow
      rcases hstands with ⟨hlock, hcount, hbelow⟩ | ⟨rfl, lockedUntil, hlock, hpast⟩
      · obtain ⟨table', hupdate, hnew⟩ := update_row precision (b.increment now row) hrow hkey rfl
        refine ⟨{ w with table := table' }, _, ?_, rfl, hnew, stands_increment hlock hcount hbelow⟩
        simp only [PersistentLockoutBackend.record, LoginLockout.activeStreak, hlock, Option.all_none, if_true,
          Program.run_call, exec_update, hupdate]
        rfl
      · obtain ⟨table', hupdate, hnew⟩ := update_row precision (b.restart now row) hrow hkey rfl
        refine ⟨{ w with table := table' }, _, ?_, rfl, hnew, stands_first rfl rfl⟩
        have hexpired : row.activeStreak now = false := by
          rw [LoginLockout.activeStreak, hlock, Option.all_some]
          exact decide_eq_false (Int.not_lt.mpr hpast)
        simp only [PersistentLockoutBackend.record, hexpired, Bool.false_eq_true, if_false, Program.run_call,
          exec_update, hupdate]
        rfl
  · cases row? with
    | none => exact ⟨w, none, rfl, rfl, hkeep, rfl⟩
    | some row =>
      obtain ⟨hdelete, hnew⟩ := delete_row hrow
      refine ⟨{ w with table := w.table.remove row.id }, none, ?_, rfl, hnew, rfl⟩
      simp only [PersistentLockoutBackend.record, Program.run_call, exec_delete, hdelete]
      rfl

/-- The table and the machine are in step at a time. -/
structure InStep (b : PersistentLockoutBackend) (t : DateTime) (w : LockoutWorld) (s : Accounts) : Prop where
  stands : ∀ name, Stands b t (w.table.row? name) (s.account name)
  asked : w.asked = s.asked

/-- An attempt keeps the table and the machine in step, and gets the same answer from both. -/
theorem attempt_step {t : DateTime} {s : Accounts} (attempt : Attempt U) (h : InStep b t w s)
    (hlater : t.nanos ≤ attempt.now.nanos) :
    InStep b attempt.now (attempt.run b precision w).1 (s.step b precision attempt).1 ∧
      (attempt.run b precision w).2 = (s.step b precision attempt).2 := by
  obtain ⟨hat, hlock⟩ := stands_at (h.stands attempt.username) hlater
  have hothers := fun name => stands_mono (h.stands name) hlater
  rw [Attempt.run, PersistentLockoutBackend.authenticate, Program.run_call, exec_first]
  simp only [PersistentLockoutBackend.check, hlock, Accounts.step]
  cases hnow : (s.account attempt.username).at attempt.now with
  | locked lockedUntil => exact ⟨⟨hothers, h.asked⟩, rfl⟩
  | counting n =>
    rw [hnow] at hat
    obtain ⟨w', row', hrun, hasked, hrow, hstands⟩ := record_stands precision
      (w := { w with asked := w.asked ++ [(attempt.username, attempt.password)] }) rfl hat attempt.outcome [].tail.tail
    simp only [Account.lock, Program.run_call, exec_authenticate, hrun]
    refine ⟨⟨fun name => ?_, by rw [hasked, h.asked]⟩, trivial⟩
    rw [hrow]
    by_cases hname : name = attempt.username
    · simp only [hname, Function.update_self]
      exact hstands
    · simp only [Function.update_of_ne hname]
      exact hothers name

/-- Attempts at times that do not decrease. -/
theorem attempts_step {t : DateTime} {s : Accounts} (attempts : List (Attempt U)) (h : InStep b t w s)
    (hlater : ∀ attempt ∈ attempts, t.nanos ≤ attempt.now.nanos)
    (sorted : attempts.Pairwise fun attempt next => attempt.now.nanos ≤ next.now.nanos) :
    ∃ t', InStep b t' (runAttempts b precision attempts w).1 (Accounts.run b precision attempts s).1 ∧
      (∀ now : DateTime, t.nanos ≤ now.nanos → (∀ attempt ∈ attempts, attempt.now.nanos ≤ now.nanos) → t'.nanos ≤ now.nanos) ∧
      (runAttempts b precision attempts w).2 = (Accounts.run b precision attempts s).2 := by
  induction attempts generalizing t w s with
  | nil => exact ⟨t, h, fun _ hnow _ => hnow, rfl⟩
  | cons attempt rest ih =>
    obtain ⟨hfirst, hrest⟩ := List.pairwise_cons.mp sorted
    obtain ⟨hstep, hanswer⟩ := attempt_step precision attempt h (hlater attempt List.mem_cons_self)
    obtain ⟨t', hrun, hlast, hanswers⟩ := ih hstep hfirst hrest
    refine ⟨t', hrun, fun now _ hall => ?_, congrArg₂ List.cons hanswer hanswers⟩
    obtain ⟨hnow, hall⟩ := List.forall_mem_cons.mp hall
    exact hlast now hnow hall

end Attempts

/-- Two wrong passwords, and the right one while the account is locked and afterwards. -/
def aliceAttempts : List (Attempt Unit) :=
  [⟨"alice", "guess", ⟨0⟩, .ok none⟩, ⟨"alice", "other", ⟨5⟩, .ok none⟩, ⟨"alice", "secret", ⟨9⟩, .ok (some ())⟩,
    ⟨"alice", "secret", ⟨15⟩, .ok (some ())⟩]

end Djangors.Auth
