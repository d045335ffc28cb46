import Djangors.Auth.PasswordReset
import Djangors.Lib.Program
import Djangors.Lib.UniqueTable

/-! # Account lockout

`PersistentLockoutBackend` (`djangors-auth/src/lib.rs`): login failures are counted in a table, one row for
each username, around another backend. -/

namespace Djangors.Auth
open Orm (OrmError)

/-- A row of `auth_login_lockout`. -/
structure LoginLockout where
  id : Int
  username : String
  failedAttempts : Int32
  firstFailedAt : DateTime
  lockedUntil : Option DateTime
deriving DecidableEq

/-- A span of a `chrono::Duration`, in nanoseconds. -/
abbrev TimeDelta := Int

def TimeDelta.hours (n : Int) : TimeDelta := n * 3600 * 10 ^ 9

/-- `chrono::Duration::from_std`: a time delta counts its milliseconds in an `i64`. -/
def TimeDelta.fromStd (d : Duration) : Option TimeDelta :=
  if d.nanos ≤ (2 ^ 63 - 1) * 10 ^ 6 then some d.nanos else none

def later (t : DateTime) (delta : TimeDelta) : DateTime := ⟨t.nanos + delta⟩

/-- A lockout around a backend. -/
structure PersistentLockoutBackend where
  maxAttempts : UInt32
  lockoutDuration : TimeDelta

def PersistentLockoutBackend.new (maxAttempts : UInt32) (lockoutDuration : Duration) : PersistentLockoutBackend where
  maxAttempts := maxAttempts
  lockoutDuration := (TimeDelta.fromStd lockoutDuration).getD (.hours 1)

/-! ### Statements -/

/-- The answer of a backend. -/
abbrev Authentication (U : Type) := Except AuthError (Option U)

/-- What `authenticate` calls: the statements of the table, and the backend inside. -/
inductive LockoutCall where
  | first (username : String)
  | authenticate (username password : String)
  | delete (id : Int)
  | update (lockout : LoginLockout)
  | save (lockout : LoginLockout)

abbrev LockoutCall.Answer (U : Type) : LockoutCall → Type
  | .first _ => Except OrmError (Option LoginLockout)
  | .authenticate _ _ => Authentication U
  | .delete _ => Except OrmError Unit
  | .update _ => Except OrmError Unit
  | .save _ => Except OrmError LoginLockout

/-- `auth_login_lockout`, where `username` is `UNIQUE`. -/
abbrev LockoutTable := UniqueTable LoginLockout.id LoginLockout.username

/-- The table, and the calls that the backend inside has got. -/
structure LockoutWorld where
  table : LockoutTable
  asked : List (String × String)

/-- The row as it is stored: the column of a time may keep fewer digits. -/
def LoginLockout.stored (precision : DateTime → DateTime) (lockout : LoginLockout) : LoginLockout :=
  { lockout with
    firstFailedAt := precision lockout.firstFailedAt
    lockedUntil := lockout.lockedUntil.map precision }

def uniqueViolation : OrmError := .query "duplicate key value violates unique constraint"

/-- `LoginLockout::save` -/
def LockoutTable.save (precision : DateTime → DateTime) (table : LockoutTable) (lockout : LoginLockout) :
    LockoutTable × Except OrmError LoginLockout :=
  match table.insert (fun id => { lockout.stored precision with id := id }) fun _ => rfl with
  | some (table', saved) => (table', .ok saved)
  | none => (table, .error uniqueViolation)

/-- `LoginLockout::update` -/
def LockoutTable.update (precision : DateTime → DateTime) (table : LockoutTable) (lockout : LoginLockout) :
    LockoutTable × Except OrmError Unit :=
  if table.hasId lockout.id then
    match table.replace (lockout.stored precision) with
    | some table' => (table', .ok ())
    | none => (table, .error uniqueViolation)
  else (table, .error (.notFound "LoginLockout"))

/-- `LoginLockout::delete` -/
def LockoutTable.delete (table : LockoutTable) (id : Int) : LockoutTable × Except OrmError Unit :=
  if table.hasId id then (table.remove id, .ok ()) else (table, .error (.notFound "LoginLockout"))

/-- Runs a call, where the backend inside answers `result`. -/
def LockoutCall.exec {U : Type} (precision : DateTime → DateTime) (result : Authentication U) (w : LockoutWorld) :
    (call : LockoutCall) → LockoutWorld × call.Answer U
  | .first username => (w, .ok (w.table.row? username))
  | .authenticate username password => ({ w with asked := w.asked ++ [(username, password)] }, result)
  | .delete id => let (table, answer) := w.table.delete id; ({ w with table }, answer)
  | .update lockout => let (table, answer) := LockoutTable.update precision w.table lockout; ({ w with table }, answer)
  | .save lockout => let (table, answer) := LockoutTable.save precision w.table lockout; ({ w with table }, answer)

section Exec
variable {U : Type} (precision : DateTime → DateTime) (result : Authentication U) (w : LockoutWorld)

theorem exec_first (username : String) :
    (LockoutCall.first username).exec precision result w = (w, .ok (w.table.row? username)) := rfl

theorem exec_authenticate (username password : String) :
    (LockoutCall.authenticate username password).exec precision result w =
      ({ w with asked := w.asked ++ [(username, password)] }, result) := rfl

theorem exec_delete (id : Int) : (LockoutCall.delete id).exec precision result w =
    ({ w with table := (w.table.delete id).1 }, (w.table.delete id).2) := rfl

theorem exec_update (lockout : LoginLockout) : (LockoutCall.update lockout).exec precision result w =
    ({ w with table := (LockoutTable.update precision w.table lockout).1 },
      (LockoutTable.update precision w.table lockout).2) := rfl

theorem exec_save (lockout : LoginLockout) : (LockoutCall.save lockout).exec precision result w =
    ({ w with table := (LockoutTable.save precision w.table lockout).1 },
      (LockoutTable.save precision w.table lockout).2) := rfl

end Exec

/-! ### Authentication -/

/-- An `authenticate` that has started. -/
abbrev LockoutAction (U : Type) := Program (LockoutCall.Answer U) (Authentication U)

/-- `write.await?; result` -/
def finish {U α : Type} (result : Authentication U) : Except OrmError α → LockoutAction U
  | .ok _ => .done result
  | .error e => .done (.error (.database e))

/-- The time until which a row locks its account. -/
def LoginLockout.inForce (now : DateTime) (lockout : LoginLockout) : Option DateTime :=
  lockout.lockedUntil.filter fun lockedUntil => now.nanos < lockedUntil.nanos

/-- `active_streak` -/
def LoginLockout.activeStreak (now : DateTime) (lockout : LoginLockout) : Bool :=
  lockout.lockedUntil.all fun lockedUntil => now.nanos < lockedUntil.nanos

def retryAfterSecs (lockedUntil now : DateTime) : Nat := ((lockedUntil.nanos - now.nanos).tdiv (10 ^ 9)).toNat

namespace PersistentLockoutBackend
variable (b : PersistentLockoutBackend) (now : DateTime)

/-- When a lock set now ends. -/
def lockEnd : DateTime := later now b.lockoutDuration

/-- The row with one failure more; an `i32` wraps around. -/
def increment (lockout : LoginLockout) : LoginLockout :=
  let failedAttempts := lockout.failedAttempts + 1
  { lockout with
    failedAttempts
    lockedUntil := if b.maxAttempts ≤ failedAttempts.toUInt32 then some (b.lockEnd now) else lockout.lockedUntil }

/-- The lock with which a count starts. -/
def firstLock : Option DateTime := if b.maxAttempts ≤ 1 then some (b.lockEnd now) else none

/-- The row with a count that starts again. -/
def restart (lockout : LoginLockout) : LoginLockout :=
  { lockout with failedAttempts := 1, firstFailedAt := now, lockedUntil := b.firstLock now }

/-- The row of a first failure. -/
def firstFailure (username : String) : LoginLockout where
  id := 0
  username := username
  failedAttempts := 1
  firstFailedAt := now
  lockedUntil := b.firstLock now

variable {U : Type}

/-- What follows the answer of the backend inside. -/
def record (username : String) (existing : Option LoginLockout) (result : Authentication U) : LockoutAction U :=
  match result, existing with
  | .ok (some _), some lockout => .call (.delete lockout.id) (finish result)
  | .ok (some _), none => .done result
  | .ok none, some lockout =>
    if lockout.activeStreak now then .call (.update (b.increment now lockout)) (finish result)
    else .call (.update (b.restart now lockout)) (finish result)
  | .ok none, none => .call (.save (b.firstFailure now username)) (finish result)
  | .error _, _ => .done result

/-- What follows the `SELECT`. -/
def check (username password : String) (existing : Option LoginLockout) : LockoutAction U :=
  match existing.bind (·.inForce now) with
  | some lockedUntil => .done (.error (.accountLocked (retryAfterSecs lockedUntil now)))
  | none => .call (.authenticate username password) (b.record now username existing)

def authenticate (username password : String) : LockoutAction U :=
  .call (.first username) fun
    | .ok existing => b.check now username password existing
    | .error e => .done (.error (.database e))

end PersistentLockoutBackend

/-! ### Calls one after the other -/

/-- A call of `authenticate`, and what the backend inside answers if it is asked. -/
structure Attempt (U : Type) where
  username : String
  password : String
  now : DateTime
  outcome : Authentication U

section Sequences
variable {U : Type} (b : PersistentLockoutBackend) (precision : DateTime → DateTime)

def Attempt.run (attempt : Attempt U) (w : LockoutWorld) : LockoutWorld × Authentication U :=
  (b.authenticate attempt.now attempt.username attempt.password).run
    (fun (_ : Unit) call w => call.exec precision attempt.outcome w) [] w

/-- Runs attempts one after the other, and collects the answers. -/
def runAttempts : List (Attempt U) → LockoutWorld → LockoutWorld × List (Authentication U)
  | [], w => (w, [])
  | attempt :: rest, w =>
    let (w, answer) := attempt.run b precision w
    let (w, answers) := runAttempts rest w
    (w, answer :: answers)

end Sequences

/-! ### Reference machine -/

/-- An account as the documentation describes it: how many failures there were in a row, or until when it is
    locked. -/
inductive Account where
  | counting (failures : Nat)
  | locked (lockedUntil : DateTime)

/-- An expired lock is over, and the count starts again. -/
def Account.at (now : DateTime) : Account → Account
  | .locked lockedUntil => if now.nanos < lockedUntil.nanos then .locked lockedUntil else .counting 0
  | .counting failures => .counting failures

/-- The lock of an account. -/
def Account.lock : Account → Option DateTime
  | .locked lockedUntil => some lockedUntil
  | .counting _ => none

/-- The accounts by username, and the calls that the backend inside has got. -/
structure Accounts where
  account : String → Account
  asked : List (String × String)

def Accounts.start : Accounts := ⟨fun _ => .counting 0, []⟩

section Reference
variable {U : Type} (b : PersistentLockoutBackend) (precision : DateTime → DateTime)

/-- The account after an answer of the backend inside. -/
def Account.after (failures : Nat) (now : DateTime) : Authentication U → Account
  | .ok (some _) => .counting 0
  | .ok none =>
    if b.maxAttempts.toNat ≤ failures + 1 then .locked (precision (b.lockEnd now)) else .counting (failures + 1)
  | .error _ => .counting failures

def Accounts.step (attempt : Attempt U) (s : Accounts) : Accounts × Authentication U :=
  match (s.account attempt.username).at attempt.now with
  | .locked lockedUntil => (s, .error (.accountLocked (retryAfterSecs lockedUntil attempt.now)))
  | .counting failures =>
    ({  account := Function.update s.account attempt.username
          (Account.after b precision failures attempt.now attempt.outcome)
        asked := s.asked ++ [(attempt.username, attempt.password)] }, attempt.outcome)

def Accounts.run : List (Attempt U) → Accounts → Accounts × List (Authentication U)
  | [], s => (s, [])
  | attempt :: rest, s =>
    let (s, answer) := s.step b precision attempt
    let (s, answers) := Accounts.run rest s
    (s, answer :: answers)

end Reference

end Djangors.Auth

/-! ## Authentication side by side

Calls of `authenticate` for one username that run at the same time: each step is one call that one of them makes. -/

namespace Djangors.Auth

/-- The time at which a call has started, and the row that its `SELECT` has found. -/
structure Reading where
  now : DateTime
  existing : Option LoginLockout

/-- The failures that a row counts at a time: none once its lock has expired. -/
def LoginLockout.streak (now : DateTime) (lockout : LoginLockout) : Int :=
  if lockout.activeStreak now then lockout.failedAttempts.toInt else 0

/-- The table, the clock, and for each call that has started what it still has to do and what it has read.
    `failures` counts the failed calls that have ended since the last reset: since the last login that cleared the
    row, or since the lock of the row has expired. -/
structure Race (ι U : Type) where
  table : LockoutTable
  clock : DateTime
  threads : ι → Option (LockoutAction U)
  readings : ι → Reading
  failures : Nat

namespace Race

inductive Event (ι : Type) where
  | start (i : ι)
  | step (i : ι)
  | tick (clock : DateTime)

section State
variable {ι U : Type} (name : String) (s : Race ι U)

def start (table : LockoutTable) (clock : DateTime) : Race ι U :=
  ⟨table, clock, fun _ => none, fun _ => ⟨clock, none⟩, 0⟩

def row? : Option LoginLockout := s.table.row? name

/-- The failures that the table counts. -/
def stored : Int := ((s.row? name).map fun row => row.failedAttempts.toInt).getD 0

def isLocked : Bool := ((s.row? name).bind fun row => row.inForce s.clock).isSome

/-- An expired lock resets the count. -/
def settle : Race ι U := if (s.row? name).all (·.activeStreak s.clock) then s else { s with failures := 0 }

end State

/-- What the end of a call does to the count of failures: its last call is an `INSERT` or `UPDATE` after wrong
    credentials, and a `DELETE` after correct ones. -/
def counted {U : Type} : (call : LockoutCall) → call.Answer U → Nat → Nat
  | .save _, _, failures | .update _, _, failures => failures + 1
  | .delete _, .ok _, _ => 0
  | _, _, failures => failures

section Steps
variable {ι U : Type} [DecidableEq ι] (b : PersistentLockoutBackend) (precision : DateTime → DateTime) (name : String)
  (password : ι → String) (inner : ι → Authentication U)

/-- A call runs its next statement, or asks the backend inside. -/
def next (s : Race ι U) (i : ι) (call : LockoutCall) (rest : call.Answer U → LockoutAction U) : Race ι U :=
  let (world, answer) := call.exec precision (inner i) ⟨s.table, []⟩
  { s with
    table := world.table
    threads := Function.update s.threads i (some (rest answer))
    readings := Function.update s.readings i
      ⟨(s.readings i).now, match call with | .first _ => s.row? name | _ => (s.readings i).existing⟩
    failures := counted call answer s.failures }

def advance (s : Race ι U) : Event ι → Option (Race ι U)
  | .start i =>
    match s.threads i with
    | none =>
      some { s with
        threads := Function.update s.threads i (some (b.authenticate s.clock name (password i)))
        readings := Function.update s.readings i ⟨s.clock, none⟩ }
    | some _ => none
  | .step i =>
    match s.threads i with
    | some (.call call rest) => some ((s.next precision name inner i call rest).settle name)
    | _ => none
  | .tick clock => if s.clock.nanos ≤ clock.nanos then some ({ s with clock }.settle name) else none

/-- The states that events reach from a state, where each event meets a condition. -/
inductive Reaches (meets : Race ι U → Event ι → Prop) (s₀ : Race ι U) : Race ι U → Prop
  | refl : Reaches meets s₀ s₀
  | event {s s' : Race ι U} {e : Event ι} (earlier : Reaches meets s₀ s) (ok : meets s e)
      (moved : s.advance b precision name password inner e = some s') : Reaches meets s₀ s'

/-- Runs events one after the other. -/
def run : List (Event ι) → Race ι U → Option (Race ι U)
  | [], s => some s
  | e :: rest, s => (s.advance b precision name password inner e).bind (run rest)

end Steps

/-- A call finds what it has read: its `INSERT` no row, its `DELETE` the row, and its `UPDATE` the row with no more
    failures than it has read, and fewer than an `i32` can count. -/
def FindsRead {ι U : Type} (name : String) (s : Race ι U) (i : ι) : LockoutCall → Prop
  | .save _ => s.row? name = none
  | .delete id => ∃ row, s.row? name = some row ∧ row.id = id
  | .update lockout => ∃ read row, (s.readings i).existing = some read ∧ s.row? name = some row ∧ row.id = lockout.id ∧
      row.streak s.clock ≤ read.streak (s.readings i).now ∧ read.failedAttempts.toInt < 2 ^ 31 - 1
  | _ => True

/-- The condition on an event. -/
def Undisturbed {ι U : Type} (name : String) (s : Race ι U) : Event ι → Prop
  | .step i => ∀ call rest, s.threads i = some (.call call rest) → FindsRead name s i call
  | _ => True

end Race

end Djangors.Auth
