import Djangors.Lib.Base64
import Djangors.Lib.Text
import Djangors.Orm.Expr

/-! # Password reset

Password hashes and password-reset tokens (`djangors-auth/src/lib.rs`). A function that can panic returns
an `Option`. -/

namespace Djangors.Auth
open Orm (OrmError)

/-- A span of time; its seconds are a `u64`. -/
structure Duration where
  nanos : Nat
  nanos_lt : nanos < 2 ^ 64 * 10 ^ 9
deriving DecidableEq, Repr

namespace Duration

def asSecs (t : Duration) : Nat := t.nanos / 10 ^ 9

/-- The sum of two durations, which panics on overflow. -/
def add (s t : Duration) : Option Duration :=
  if h : s.nanos + t.nanos < 2 ^ 64 * 10 ^ 9 then some ⟨s.nanos + t.nanos, h⟩ else none

theorem asSecs_lt (t : Duration) : t.asSecs < 2 ^ 64 := Nat.div_lt_of_lt_mul (by have := t.nanos_lt; omega)

end Duration

inductive AuthError where
  | hashing (message : String)
  | database (error : OrmError)
  | rateLimited
  | accountLocked (retryAfterSecs : Nat)
  | invalidToken
  | mail (message : String)

/-- A type of users. Setting the password hash sets it, and leaves the id. -/
class AuthUser (U : Type) where
  id : U → Int64
  passwordHash : U → String
  setPasswordHash : U → String → U
  id_setPasswordHash : ∀ user hash, id (setPasswordHash user hash) = id user
  passwordHash_setPasswordHash : ∀ user hash, passwordHash (setPasswordHash user hash) = hash

/-- The default user model, as far as resetting a password goes. -/
structure User where
  id : Int64
  password : String
deriving DecidableEq, Repr

instance : AuthUser User where
  id := User.id
  passwordHash := User.password
  setPasswordHash user hash := { user with password := hash }
  id_setPasswordHash _ _ := rfl
  passwordHash_setPasswordHash _ _ := rfl

attribute [simp] AuthUser.id_setPasswordHash AuthUser.passwordHash_setPasswordHash

/-! ### Hashes -/

/-- Algorithm, version and parameters in the text of a hash. -/
def phcParameters : String := "$argon2id$v=19$m=19456,t=2,p=1"

/-- The text of a hash with the default parameters. -/
def phc (salt digest : String) : String := phcParameters ++ "$" ++ salt ++ "$" ++ digest

/-- `hash_password`: the hasher draws a salt, and fails or returns it with the digest. -/
def hashPassword (hasher : String → Except String (String × String)) (password : String) : Except AuthError String :=
  match hasher password with
  | .ok (salt, digest) => .ok (phc salt digest)
  | .error e => .error (.hashing e)

/-! ### Tokens -/

section Tokens
variable {U : Type} [AuthUser U] (hmac : List UInt8 → List UInt8 → List UInt8)

/-- `&hash[..min(30, hash.len())]`, which panics when that is inside a character. -/
def passwordHashPrefix (hash : String) : Option String :=
  (Text.cut (min 30 hash.utf8ByteSize) hash.toList).map String.ofList

/-- The message that a token signs. -/
def tokenMessage (user : U) (expiryUnixSecs : Nat) (hashPrefix : String) : String :=
  toString (AuthUser.id user).toInt ++ "." ++ toString expiryUnixSecs ++ "." ++ hashPrefix

def encodeBytes (bytes : List UInt8) : String := String.ofList (Base64.encode bytes)

/-- `generate_password_reset_token`; `now` is the time since the epoch. -/
def generatePasswordResetToken (user : U) (secret : List UInt8) (ttl now : Duration) : Option String := do
  let expiryUnixSecs := (← now.add ttl).asSecs
  let b64UserId := encodeBytes (Text.bytes (toString (AuthUser.id user).toInt))
  let b64Expiry := encodeBytes (Text.bytes (toString expiryUnixSecs))
  let hashPrefix ← passwordHashPrefix (AuthUser.passwordHash user)
  let msg := tokenMessage user expiryUnixSecs hashPrefix
  let b64Mac := encodeBytes (hmac secret (Text.bytes msg))
  return b64UserId ++ "." ++ b64Expiry ++ "." ++ b64Mac

/-- Decodes the Base64 of a text. -/
def decodeText (part : List Char) : Option String := (Base64.decode part).bind Text.ofBytes?

/-- `verify_password_reset_token` -/
def verifyPasswordResetToken (user : U) (token : String) (secret : List UInt8) (now : Duration) : Option Bool :=
  match token.toList.splitOn '.' with
  | [b64UserId, b64Expiry, b64Mac] =>
    match (decodeText b64UserId).bind fun text => Text.parseSigned (2 ^ 63) text.toList with
    | none => some false
    | some tokenUserId =>
      if tokenUserId ≠ (AuthUser.id user).toInt then some false
      else
        match (decodeText b64Expiry).bind fun text => Text.parseUnsigned (2 ^ 64) text.toList with
        | none => some false
        | some expiryUnixSecs =>
          if expiryUnixSecs ≤ now.asSecs then some false
          else do
            let hashPrefix ← passwordHashPrefix (AuthUser.passwordHash user)
            let msg := tokenMessage user expiryUnixSecs hashPrefix
            match Base64.decode b64Mac with
            | none => some false
            | some macBytes => some (macBytes == hmac secret (Text.bytes msg))
  | _ => some false

/-- What a call of `confirm_password_reset` meets: the time, errors of the server, and the hasher. -/
structure Surroundings where
  now : Duration
  fetchError : Option OrmError := none
  hasher : String → Except String (String × String)
  updateError : Option OrmError := none

/-- `confirm_password_reset` on the table of users, with the table that a call that succeeds leaves. A call
    that fails leaves the table as it is. -/
def confirmPasswordReset (surroundings : Surroundings) (users : List U) (userId : Int64) (token newPassword : String)
    (secret : List UInt8) : Option (Except AuthError (List U)) :=
  match surroundings.fetchError with
  | some e => some (.error (.database e))
  | none =>
    match users.filter fun user => AuthUser.id user = userId with
    | [user] => do
      if ← verifyPasswordResetToken hmac user token secret surroundings.now then
        match hashPassword surroundings.hasher newPassword with
        | .error e => some (.error e)
        | .ok hashed =>
          let user := AuthUser.setPasswordHash user hashed
          match surroundings.updateError with
          | some e => some (.error (.database e))
          | none => some (.ok (users.map fun u => if AuthUser.id u = AuthUser.id user then user else u))
      else some (.error .invalidToken)
    | _ => some (.error .invalidToken)

end Tokens

/-! ### Runs -/

/-- Somebody tries to reset a password, or a password is changed in some other way. -/
inductive Event where
  | reset (surroundings : Surroundings) (userId : Int64) (token newPassword : String)
  | setPassword (userId : Int64) (hash : String)

/-- The hash that an event may store. -/
def Event.newHash? : Event → Option String
  | .reset surroundings _ _ newPassword => (hashPassword surroundings.hasher newPassword).toOption
  | .setPassword _ hash => some hash

section Runs
variable {U : Type} [AuthUser U] (hmac : List UInt8 → List UInt8 → List UInt8) (secret : List UInt8)

/-- The table after an event; a call that panics leaves it as it is. -/
def Event.after (users : List U) : Event → List U
  | .reset surroundings userId token newPassword =>
    match confirmPasswordReset hmac surroundings users userId token newPassword secret with
    | some (.ok users) => users
    | _ => users
  | .setPassword userId hash =>
    users.map fun user => if AuthUser.id user = userId then AuthUser.setPasswordHash user hash else user

/-- Whether an event is a reset with this token that succeeds. -/
def Event.uses (token : String) (users : List U) : Event → Bool
  | .reset surroundings userId presented newPassword =>
    presented == token &&
      match confirmPasswordReset hmac surroundings users userId presented newPassword secret with
      | some (.ok _) => true
      | _ => false
  | .setPassword .. => false

/-- How many times a run changes a password with a token. -/
def uses (token : String) : List U → List Event → Nat
  | _, [] => 0
  | users, event :: events =>
    (event.uses hmac secret token users).toNat + uses token (event.after hmac secret users) events

end Runs

/-- No attempt of a run comes before `start`. -/
def Since (start : Duration) (events : List Event) : Prop :=
  ∀ surroundings userId token newPassword, .reset surroundings userId token newPassword ∈ events →
    start.nanos ≤ surroundings.now.nanos

/-- The hashes that a run stores are new each time, as they are with random salts. -/
def NoHashReturns (hash : String) (events : List Event) : Prop := (hash :: events.filterMap (·.newHash?)).Nodup

end Djangors.Auth
