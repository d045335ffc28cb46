import Djangors.Auth.PasswordReset
import Djangors.Lib.Program
import Djangors.Orm.Derive
import Djangors.Rest.Cursor

/-! # Superusers

The model of users and the backend that logs them in (`djangors-auth/src/lib.rs`), `create_superuser_impl`
(`djangors-cli/src/commands.rs`), and calls of it that run side by side. -/

namespace Djangors.Auth
open Db Orm Sql
open Rest (ormMessage)

/-! ### Users -/

def userMembers : List Member :=
  [.field { ident := "id", columnName := "id", type := .i64, primaryKey := true, auto := true },
    .field { ident := "username", columnName := "username", type := .string, maxLength := some 150 },
    .field { ident := "email", columnName := "email", type := .string, maxLength := some 254 },
    .field { ident := "password", columnName := "password", type := .string },
    .field { ident := "is_active", columnName := "is_active", type := .bool },
    .field { ident := "is_staff", columnName := "is_staff", type := .bool },
    .field { ident := "is_superuser", columnName := "is_superuser", type := .bool },
    .field { ident := "date_joined", columnName := "date_joined", type := .dateTime },
    .field { ident := "last_login", columnName := "last_login", type := .dateTime, nullable := true }]

theorem userMembers_idents : (userMembers.map Member.ident).Nodup := by decide

theorem userMembers_columns : (userMembers.map Member.columnName).Nodup := by decide

/-- `User` -/
def userModel : DerivedModel where
  structName := "User"
  appLabel := "djangors_auth"
  tableName := "auth_user"
  members := userMembers
  idents_nodup := userMembers_idents
  columns_nodup := userMembers_columns
  one_pk := ⟨_, rfl⟩

/-- `Display for AuthError` -/
def AuthError.message : AuthError → String
  | .hashing message => "password hashing error: " ++ message
  | .database error => "database error: " ++ ormMessage error
  | .rateLimited => "too many login attempts, try again later"
  | .accountLocked retryAfterSecs =>
    "account locked due to too many failed login attempts, try again in " ++ toString retryAfterSecs ++ "s"
  | .invalidToken => "invalid or expired token"
  | .mail message => "mail sending error: " ++ message

section Users
variable {ρ : Type}

/-- The user that `create_superuser_impl` saves. -/
def superuser (username email hash : String) (now : DateTime) : Object ρ :=
  [("id", .int 0), ("username", .text username), ("email", .text email), ("password", .text hash), ("is_active", .bool true),
    ("is_staff", .bool true), ("is_superuser", .bool true), ("date_joined", .dateTime now), ("last_login", .absent)]

/-- `password_hash` -/
def passwordHash (user : Object ρ) : String :=
  match user.lookup "password" with
  | some (.text hash) => hash
  | _ => ""

/-- `is_active` -/
def isActive (user : Object ρ) : Bool :=
  match user.lookup "is_active" with
  | some (.bool b) => b
  | _ => false

/-- The users with a name. -/
def named (username : String) : Except OrmError (QuerySet userModel.info) :=
  ({} : QuerySet userModel.info).filter (.and [⟨"username", .text username⟩])

/-! ### Logging in -/

def dummyHash : String := "$argon2id$v=19$m=19456,t=2,p=1$c29tZXNhbHQ$dGVzdHBhc3N3b3Jk"

section Login
variable [Fmt] (S : Server) (G : TryGet) (T : TextTypes ρ) (verify : String → String → Except String Bool)

/-- `ModelBackend::authenticate`. `verify` is `verify_password`. -/
def authenticate (db : Tables Cell) (username password : String) : Except AuthError (Option (Object ρ)) := do
  let users ← (named username >>= fun qs => qs.all S db false (userModel.fromRow G T)).mapError AuthError.database
  let userOpt := match users with
    | [user] => some user
    | _ => none
  let verified ← (verify password ((userOpt.map passwordHash).getD dummyHash)).mapError AuthError.hashing
  return userOpt.filter fun user => verified && isActive user

end Login

/-! ### Creating -/

/-- The statements of `create_superuser_impl`. -/
inductive UserCall (ρ : Type) where
  | exists_ (username : String)
  | save (user : Object ρ)

abbrev UserCall.Answer : UserCall ρ → Type
  | exists_ _ => Except OrmError Bool
  | save _ => Except OrmError (Object ρ)

abbrev Creator (ρ α : Type) := Fallible (UserCall.Answer (ρ := ρ)) String α

/-- What a call gets: its arguments, the time, and what the hasher makes of the password. -/
structure Creation where
  username : String
  email : String
  password : String
  now : DateTime
  hasher : String → Except String (String × String)

def orString {α : Type} (result : Except OrmError α) : Creator ρ α := Fallible.lift (result.mapError ormMessage)

/-- `create_superuser_impl` -/
def createSuperuser (c : Creation) : Creator ρ Unit := do
  let answer ← (.call (.exists_ c.username) fun answer => .done (.ok answer) : Creator ρ (Except OrmError Bool))
  if ← orString answer then
    Fallible.lift (.error ("superuser with username '" ++ c.username ++ "' already exists"))
  else
    let hash ← Fallible.lift ((hashPassword c.hasher c.password).mapError AuthError.message)
    let answer ← (.call (.save (superuser c.username c.email hash c.now)) fun answer => .done (.ok answer) :
      Creator ρ (Except OrmError (Object ρ)))
    let _ ← orString answer
    return ()

/-! ### Side by side -/

/-- The tables, what each call that has started still has to do, and the user that it has saved. -/
structure Creating (ι ρ : Type) where
  tables : Tables Cell
  calls : ι → Option (Creator ρ Unit)
  saved : ι → Option (Object ρ)

namespace Creating
variable {ι : Type}

inductive Event (ι : Type) where
  | start (i : ι)
  | step (i : ι)

def begin_ (tables : Tables Cell) : Creating ι ρ := ⟨tables, fun _ => none, fun _ => none⟩

/-- Whether a row has a name. -/
def hasName (S : Server) (username : String) (r : Row Cell) : Bool :=
  (r.lookup "username").bind (S.interp.compare .eq · (.text username)) == some true

section Steps
variable [DecidableEq ι] [Fmt] (S : Server) (G : TryGet) (T : TextTypes ρ) (creations : ι → Creation)

/-- A call runs its next statement. -/
def next (s : Creating ι ρ) (i : ι) : (call : UserCall ρ) → (call.Answer → Creator ρ Unit) → Creating ι ρ
  | .exists_ username, rest =>
    { s with calls := Function.update s.calls i (some (rest (named username >>= fun qs => qs.exists_ S s.tables false))) }
  | .save user, rest =>
    let (tables, answer) := userModel.save G T S s.tables (creations i).now user
    ⟨tables, Function.update s.calls i (some (rest answer)), Function.update s.saved i answer.toOption⟩

def advance (s : Creating ι ρ) : Event ι → Option (Creating ι ρ)
  | .start i =>
    match s.calls i with
    | none => some { s with calls := Function.update s.calls i (some (createSuperuser (creations i))) }
    | some _ => none
  | .step i =>
    match s.calls i with
    | some (.call call rest) => some (s.next S G T creations i call rest)
    | _ => none

/-- The states that events reach from a state, where each event meets a condition. -/
inductive Reaches (meets : Creating ι ρ → Event ι → Prop) (s₀ : Creating ι ρ) : Creating ι ρ → Prop
  | refl : Reaches meets s₀ s₀
  | event {s s' : Creating ι ρ} {e : Event ι} (earlier : Reaches meets s₀ s) (ok : meets s e)
      (moved : s.advance S G T creations e = some s') : Reaches meets s₀ s'

/-- Runs events one after the other. -/
def run : List (Event ι) → Creating ι ρ → Option (Creating ι ρ)
  | [], s => some s
  | e :: rest, s => (s.advance S G T creations e).bind (run rest)

/-- When a call saves a user, no row has the name: none has been inserted since the call has looked for it. -/
def NameFree (s : Creating ι ρ) : Event ι → Prop
  | .step i => ∀ user rest, s.calls i = some (.call (.save user) rest) →
    ∀ r ∈ s.tables userModel.tableName, hasName S (creations i).username r = false
  | _ => True

end Steps
end Creating
end Users

end Djangors.Auth
