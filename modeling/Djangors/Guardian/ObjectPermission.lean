import Djangors.Auth.PasswordReset
import Djangors.Lib.Program
import Djangors.Lib.UniqueTable

/-! # Object permissions

`djangors-contrib-guardian/src/lib.rs`: permissions on single objects, next to the permissions of users and of their
groups (`has_perm` of `djangors-auth/src/lib.rs`). -/

namespace Djangors.Guardian
open Auth (AuthError)
open Orm (OrmError)

structure Permission where
  id : Int
  codename : String
deriving DecidableEq

structure UserPermission where
  user : Int
  permission : Int

structure UserGroup where
  user : Int
  group : Int

structure GroupPermission where
  group : Int
  permission : Int

structure ObjectPermission where
  id : Int
  user : Int
  permission : Int
  appLabel : String
  modelName : String
  objectId : Int
deriving DecidableEq

/-- What a permission is granted to and on: the arguments of the three functions. -/
structure Target where
  userId : Int
  codename : String
  appLabel : String
  modelName : String
  objectId : Int
deriving DecidableEq

/-- The tables that are read. Two permissions differ in `codename`, which is `UNIQUE`. -/
structure Tables where
  permissions : UniqueTable Permission.id Permission.codename
  userPermissions : List UserPermission
  userGroups : List UserGroup
  groupPermissions : List GroupPermission
  objectPermissions : Keyed ObjectPermission.id

/-! ### Statements -/

inductive GuardianCall where
  | countUserPermissions (userId : Int) (codename : String)
  | countGroupPermissions (userId : Int) (codename : String)
  | countObjectPermissions (target : Target)
  | permissionId (codename : String)
  | objectPermissionId (permission : Int) (target : Target)
  | save (row : ObjectPermission)
  | deleteObjectPermissions (permission : Int) (target : Target)

namespace GuardianCall

abbrev Result : GuardianCall → Type
  | countUserPermissions _ _ | countGroupPermissions _ _ | countObjectPermissions _ => Nat
  | permissionId _ | objectPermissionId _ _ => Option Int
  | save _ => ObjectPermission
  | deleteObjectPermissions _ _ => Nat

abbrev Answer (call : GuardianCall) : Type := Except OrmError call.Result

end GuardianCall

/-- The columns of a row that do not name its permission are those of a target. -/
def ObjectPermission.isOn (target : Target) (row : ObjectPermission) : Bool :=
  row.user = target.userId ∧ row.appLabel = target.appLabel ∧ row.modelName = target.modelName ∧
    row.objectId = target.objectId

/-- The `WHERE` of the `SELECT` and of the `DELETE`. -/
def ObjectPermission.grants (permission : Int) (target : Target) (row : ObjectPermission) : Bool :=
  row.permission = permission ∧ row.isOn target

namespace Tables
variable (tables : Tables)

/-- `auth_user_permissions up JOIN auth_permission p ON p.id = up.permission` -/
def countUserPermissions (userId : Int) (codename : String) : Nat :=
  (tables.userPermissions ×ˢ tables.permissions.rows).countP fun (up, p) =>
    p.id = up.permission ∧ up.user = userId ∧ p.codename = codename

/-- `auth_user_groups ug JOIN auth_group_permissions gp ON gp."group" = ug."group" JOIN auth_permission p ON
    p.id = gp.permission` -/
def countGroupPermissions (userId : Int) (codename : String) : Nat :=
  (tables.userGroups ×ˢ tables.groupPermissions ×ˢ tables.permissions.rows).countP fun (ug, gp, p) =>
    gp.group = ug.group ∧ p.id = gp.permission ∧ ug.user = userId ∧ p.codename = codename

/-- `djangors_object_permission op JOIN auth_permission p ON p.id = op.permission` -/
def countObjectPermissions (target : Target) : Nat :=
  (tables.objectPermissions.rows ×ˢ tables.permissions.rows).countP fun (op, p) =>
    p.id = op.permission ∧ op.isOn target ∧ p.codename = target.codename

end Tables

/-- Runs a statement that does not fail. -/
def GuardianCall.exec (tables : Tables) : (call : GuardianCall) → Tables × call.Result
  | .countUserPermissions userId codename => (tables, tables.countUserPermissions userId codename)
  | .countGroupPermissions userId codename => (tables, tables.countGroupPermissions userId codename)
  | .countObjectPermissions target => (tables, tables.countObjectPermissions target)
  | .permissionId codename => (tables, (tables.permissions.row? codename).map (·.id))
  | .objectPermissionId permission target =>
    (tables, (tables.objectPermissions.rows.find? (·.grants permission target)).map (·.id))
  | .save row =>
    ({ tables with objectPermissions := tables.objectPermissions.insert (fun id => { row with id }) fun _ => rfl },
      { row with id := tables.objectPermissions.nextId })
  | .deleteObjectPermissions permission target =>
    ({ tables with objectPermissions := tables.objectPermissions.delete (·.grants permission target) },
      tables.objectPermissions.rows.countP (·.grants permission target))

/-- A statement that fails changes nothing: it breaks a constraint, or the database cannot be reached. -/
def GuardianCall.step (failure : Option OrmError) (call : GuardianCall) (tables : Tables) : Tables × call.Answer :=
  match failure with
  | none => let (tables', result) := call.exec tables; (tables', .ok result)
  | some e => (tables, .error e)

/-! ### Functions -/

abbrev GuardianAction (α : Type) := Program GuardianCall.Answer (Except AuthError α)

/-- Runs a statement, where a failure ends the function: `.map_err(..)?`. -/
def query {α : Type} (call : GuardianCall) (next : call.Result → GuardianAction α) : GuardianAction α :=
  .call call fun
    | .ok result => next result
    | .error e => .done (.error (.database e))

def rowNotFound : OrmError := .query "no rows returned by a query that expected to return at least one row"

def hasPerm (userId : Int) (codename : String) : GuardianAction Bool :=
  query (.countUserPermissions userId codename) fun direct : Nat =>
    if 0 < direct then .done (.ok true)
    else query (.countGroupPermissions userId codename) fun viaGroup : Nat => .done (.ok (0 < viaGroup : Bool))

def hasPermForObject (target : Target) : GuardianAction Bool :=
  (hasPerm target.userId target.codename).bind fun
    | .ok true => .done (.ok true)
    | .ok false => query (.countObjectPermissions target) fun count : Nat => .done (.ok (0 < count : Bool))
    | .error e => .done (.error e)

/-- The row of a grant. -/
def Target.objectPermission (target : Target) (id permission : Int) : ObjectPermission where
  id := id
  user := target.userId
  permission := permission
  appLabel := target.appLabel
  modelName := target.modelName
  objectId := target.objectId

/-- What follows the `SELECT` of a row that is there already. -/
def saveUnless (permission : Int) (target : Target) : Option Int → GuardianAction ObjectPermission
  | some id => .done (.ok (target.objectPermission id permission))
  | none => query (.save (target.objectPermission 0 permission)) fun saved : ObjectPermission => .done (.ok saved)

/-- What follows the `SELECT` of the permission. -/
def grantPermission (target : Target) : Option Int → GuardianAction ObjectPermission
  | some permission => query (.objectPermissionId permission target) (saveUnless permission target)
  | none => .done (.error (.database rowNotFound))

def grantObjectPermission (target : Target) : GuardianAction ObjectPermission :=
  query (.permissionId target.codename) (grantPermission target)

/-- What follows the `SELECT` of the permission. -/
def revokePermission (target : Target) : Option Int → GuardianAction Bool
  | some permission =>
    query (.deleteObjectPermissions permission target) fun rowsAffected : Nat => .done (.ok (0 < rowsAffected : Bool))
  | none => .done (.ok false)

def revokeObjectPermission (target : Target) : GuardianAction Bool :=
  query (.permissionId target.codename) (revokePermission target)

namespace Tables
variable (tables : Tables)

/-- The answer of `has_perm`, when the database does not fail. -/
def hasPerm (userId : Int) (codename : String) : Except AuthError Bool :=
  ((Guardian.hasPerm userId codename).run GuardianCall.step [] tables).2

/-- The answer of `has_perm_for_object`, when the database does not fail. -/
def hasPermForObject (target : Target) : Except AuthError Bool :=
  ((Guardian.hasPermForObject target).run GuardianCall.step [] tables).2

end Tables

/-! ### Calls side by side -/

inductive Request where
  | grant (target : Target)
  | revoke (target : Target)

inductive Outcome where
  | granted (row : ObjectPermission)
  | revoked (deleted : Bool)

namespace Request

def target : Request → Target
  | grant target | revoke target => target

def isGrant : Request → Bool
  | grant _ => true
  | revoke _ => false

def action : Request → GuardianAction Outcome
  | grant target => (grantObjectPermission target).bind fun answer => .done (answer.map .granted)
  | revoke target => (revokeObjectPermission target).bind fun answer => .done (answer.map .revoked)

end Request

/-- The tables, and for each call that has started what it still has to do. `effects` lists the calls that have
    returned `Ok`, in the order in which they have run their last statements: a call takes effect with its last one. -/
structure Calls (ι : Type) where
  tables : Tables
  threads : ι → Option (GuardianAction Outcome)
  effects : List ι

namespace Calls

/-- A call starts, or runs its next statement, which may fail. -/
inductive Event (ι : Type) where
  | start (i : ι)
  | step (i : ι) (failure : Option OrmError)

/-- No object permission has been granted, and no call has started. -/
def start {ι : Type} (tables : Tables) : Calls ι := ⟨{ tables with objectPermissions := .empty }, fun _ => none, []⟩

/-- The calls that have returned `Ok` once a call goes on with `p`. -/
def effected {ι : Type} (effects : List ι) (i : ι) : GuardianAction Outcome → List ι
  | .done (.ok _) => effects ++ [i]
  | _ => effects

section Steps
variable {ι : Type} [DecidableEq ι] (request : ι → Request)

def advance (s : Calls ι) : Event ι → Option (Calls ι)
  | .start i =>
    match s.threads i with
    | none => some { s with threads := Function.update s.threads i (some (request i).action) }
    | some _ => none
  | .step i failure =>
    match s.threads i with
    | some (.call call rest) =>
      let (tables, answer) := call.step failure s.tables
      some {
        tables
        threads := Function.update s.threads i (some (rest answer))
        effects := effected s.effects i (rest answer) }
    | _ => none

/-- The states that events reach from a state. -/
inductive Reaches (s₀ : Calls ι) : Calls ι → Prop
  | refl : Reaches s₀ s₀
  | event {s s' : Calls ι} {e : Event ι} (earlier : Reaches s₀ s) (moved : s.advance request e = some s') : Reaches s₀ s'

/-- The call on a target that has taken effect last. -/
def latest (s : Calls ι) (target : Target) : Option Request :=
  (s.effects.map request).reverse.find? (·.target = target)

end Steps
end Calls

end Djangors.Guardian
