import Djangors.Auth.PasswordReset
import Djangors.Http.Csrf

/-! # Session cookies

`Session` and `SignedCookieStore` (`djangors-sessions/src/lib.rs`). The values of a session are JSON values; the type
of values, and how JSON is written and read, are left open. -/

namespace Djangors.Sessions
open Auth (Duration encodeBytes decodeText)

/-- `HashMap<String, Value>` -/
abbrev Data (V : Type) := Finmap fun _ : List Char => V

/-- The functions of `serde_json` on the data of a session: the text of entries in some order, and reading. -/
structure SerdeJson (V : Type) where
  string : List Char → V
  toText : List (List Char × V) → String
  fromSlice : List UInt8 → Option (Data V)

/-- What a call meets: the time since the epoch, the bytes of the random number generator, and the order in which
    a map lists its entries. -/
structure Surroundings (V : Type) where
  now : Duration
  random : List UInt8
  order : Data V → List (List Char × V)

/-! ### Sessions -/

structure SessionInner (V : Type) where
  data : Data V
  modified : Bool
  cycled : Bool
  new : Bool

def sessionKey : List Char := "_session_key".toList

/-- `generate_session_key` -/
def generateSessionKey (random : List UInt8) : List Char :=
  random.flatMap fun byte => [Nat.digitChar (byte.toNat / 16), Nat.digitChar (byte.toNat % 16)]

namespace SessionInner
variable {V : Type} (json : SerdeJson V) (random : List UInt8)

/-- `Session::new_empty` -/
def newEmpty : SessionInner V where
  data := (∅ : Data V).insert sessionKey (json.string (generateSessionKey random))
  modified := false
  cycled := false
  new := true

/-- `Session::get`, before the value is read as some type. -/
def get? (s : SessionInner V) (key : List Char) : Option V := s.data.lookup key

/-- `Session::set`; there is no value when the one given cannot be serialized. -/
def set (key : List Char) (value : Option V) (s : SessionInner V) : SessionInner V :=
  match value with
  | some v => { s with data := s.data.insert key v, modified := true }
  | none => s

/-- `Session::remove` -/
def remove (key : List Char) (s : SessionInner V) : SessionInner V :=
  if (s.data.lookup key).isSome then { s with data := s.data.erase key, modified := true } else s

/-- `Session::clear` -/
def clear (s : SessionInner V) : SessionInner V :=
  { s with data := (∅ : Data V).insert sessionKey (json.string (generateSessionKey random)), modified := true }

/-- `Session::cycle_key` -/
def cycleKey (s : SessionInner V) : SessionInner V := { s with cycled := true, modified := true }

end SessionInner

/-! ### The store -/

structure SignedCookieStore where
  key : List UInt8
  cookieName : List Char
  maxAge : Duration
  secure : Bool

/-- The sum of a time and a duration, which panics when its seconds are no `i64`. -/
def systemTimeAdd (t : Duration) (d : Duration) : Option Duration :=
  if h : t.nanos + d.nanos < 2 ^ 63 * 10 ^ 9 then some ⟨t.nanos + d.nanos, by omega⟩ else none

/-- The first two parts of a cookie, which are signed. -/
def cookieMessage (jsonText : String) (expiresAtUnix : Nat) : String :=
  encodeBytes (Text.bytes jsonText) ++ "." ++ encodeBytes (Text.bytes (toString expiresAtUnix))

section Codec
variable {V : Type} (json : SerdeJson V) (hmac : List UInt8 → List UInt8 → List UInt8) (store : SignedCookieStore)

/-- The data that `SignedCookieStore::encode` writes: a cycled session gets a new key. -/
def SessionInner.encoded (random : List UInt8) (s : SessionInner V) : SessionInner V :=
  if s.cycled then
    { s with data := s.data.insert sessionKey (json.string (generateSessionKey random)), cycled := false }
  else s

/-- The cookie of a text and an expiry. -/
def cookieText (jsonText : String) (expiresAtUnix : Nat) : String :=
  cookieMessage jsonText expiresAtUnix ++ "." ++
    encodeBytes (hmac store.key (Text.bytes (cookieMessage jsonText expiresAtUnix)))

/-- `SignedCookieStore::encode`; the cookie, and the session that it leaves. -/
def SignedCookieStore.encode (surroundings : Surroundings V) (s : SessionInner V) : Option (String × SessionInner V) := do
  let s := s.encoded json surroundings.random
  let jsonStr := json.toText (surroundings.order s.data)
  let expiresAtUnix := (← systemTimeAdd surroundings.now store.maxAge).asSecs
  return (cookieText hmac store jsonStr expiresAtUnix, s)

/-- `SignedCookieStore::decode` -/
def SignedCookieStore.decode (now : Duration) (cookieValue : List Char) : Option (SessionInner V) :=
  match cookieValue.splitOn '.' with
  | [b64Json, b64Expiry, b64Mac] => do
    let msg := String.ofList (b64Json ++ '.' :: b64Expiry)
    let macBytes ← Base64.decode b64Mac
    if macBytes = hmac store.key (Text.bytes msg) then
      let expiryStr ← decodeText b64Expiry
      let expirySecs ← Text.parseUnsigned (2 ^ 64) expiryStr.toList
      if expirySecs ≤ now.asSecs then none
      else
        let data ← json.fromSlice (← Base64.decode b64Json)
        return { data, modified := false, cycled := false, new := false }
    else none
  | _ => none

end Codec

/-! ### Issued cookies -/

/-- A session that has been encoded. -/
structure Issue (V : Type) where
  surroundings : Surroundings V
  session : SessionInner V

section Issues
variable {V : Type} (json : SerdeJson V) (hmac : List UInt8 → List UInt8 → List UInt8) (store : SignedCookieStore)

/-- When a cookie that is made now expires. -/
def SignedCookieStore.expiresAt (now : Duration) : Option Nat := (systemTimeAdd now store.maxAge).map (·.asSecs)

def Issue.encoded (issue : Issue V) : SessionInner V := issue.session.encoded json issue.surroundings.random

/-- The JSON text of the session. -/
def Issue.text (issue : Issue V) : String := json.toText (issue.surroundings.order (issue.encoded json).data)

/-- The session that a decoded cookie starts with. -/
def Issue.restored (issue : Issue V) : SessionInner V := ⟨(issue.encoded json).data, false, false, false⟩

def Issue.cookie (issue : Issue V) : Option String :=
  (store.encode json hmac issue.surroundings issue.session).map (·.1)

/-- `serde_json` reads the data back from their text. -/
def Issue.ReadsBack (issue : Issue V) : Prop :=
  json.fromSlice (Text.bytes (issue.text json)) = some (issue.encoded json).data

/-- Whoever has made the cookie cannot forge a tag: when its tag is the one of its message, the encoder has signed the
    message. -/
def Unforged (issues : List (Issue V)) (cookie : List Char) : Prop :=
  ∀ msg mac, cookie = msg ++ '.' :: mac → Base64.decode mac = some (hmac store.key (Text.bytes (String.ofList msg))) →
    ∃ issue ∈ issues, ∃ expiresAt, store.expiresAt issue.surroundings.now = some expiresAt ∧
      msg = (cookieMessage (issue.text json) expiresAt).toList

/-- Cookies give back the sessions that they were made from until they expire, and no other cookie is accepted. -/
structure Faithful (issues : List (Issue V)) : Prop where
  alive : ∀ issue ∈ issues, ∀ cookie expiresAt (now : Duration), issue.cookie json hmac store = some cookie →
    store.expiresAt issue.surroundings.now = some expiresAt → now.asSecs < expiresAt →
    store.decode json hmac now cookie.toList = some (issue.restored json)
  expired : ∀ issue ∈ issues, ∀ cookie expiresAt (now : Duration), issue.cookie json hmac store = some cookie →
    store.expiresAt issue.surroundings.now = some expiresAt → expiresAt ≤ now.asSecs →
    store.decode json hmac now cookie.toList = none
  genuine : ∀ (cookie : List Char) (now : Duration) s, Unforged json hmac store issues cookie →
    store.decode json hmac now cookie = some s →
    ∃ issue ∈ issues, ∃ expiresAt, issue.cookie json hmac store = some (String.ofList cookie) ∧
      store.expiresAt issue.surroundings.now = some expiresAt ∧ now.asSecs < expiresAt ∧ s = issue.restored json

end Issues

end Djangors.Sessions
