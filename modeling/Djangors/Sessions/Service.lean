import Djangors.Sessions.Cookie

/-! # The session service

`SessionService::call` (`djangors-sessions/src/lib.rs`), the flash messages that handlers keep in a session
(`djangors-contrib-messages/src/lib.rs`), and the requests of one client. -/

namespace Djangors.Sessions
open Auth (Duration)
open Http (HeaderMap extractCookie isHeaderText)

/-! ### Flash messages -/

inductive Level where
  | debug
  | info
  | success
  | warning
  | error
deriving DecidableEq, Repr

structure Message where
  level : Level
  text : List Char
deriving DecidableEq, Repr

/-- How `serde` turns messages into a JSON value and back. -/
structure MessageCodec (V : Type) where
  toValue : List Message → V
  fromValue : V → Option (List Message)
  fromValue_toValue : ∀ messages, fromValue (toValue messages) = some messages

def messagesKey : List Char := "_djangors_messages".toList

/-- What a handler calls. -/
inductive SessionCall (V : Type) where
  | set (key : List Char) (value : Option V)
  | remove (key : List Char)
  | clear (random : List UInt8)
  | cycleKey
  | add (message : Message)
  | take

section Calls
variable {V : Type} (json : SerdeJson V) (codec : MessageCodec V)

/-- `session.get(SESSION_KEY).unwrap_or_default()` -/
def SessionInner.messages (s : SessionInner V) : List Message :=
  ((s.get? messagesKey).bind codec.fromValue).getD []

/-- Runs a call; `take` returns messages. -/
def SessionCall.run (s : SessionInner V) : SessionCall V → SessionInner V × Option (List Message)
  | .set key value => (s.set key value, none)
  | .remove key => (s.remove key, none)
  | .clear random => (s.clear json random, none)
  | .cycleKey => (s.cycleKey, none)
  | .add message => (s.set messagesKey (some (codec.toValue (s.messages codec ++ [message]))), none)
  | .take => (s.remove messagesKey, some (s.messages codec))

/-- Runs calls, and collects what `take` returns. -/
def runCalls : List (SessionCall V) → SessionInner V → SessionInner V × List (List Message)
  | [], s => (s, [])
  | call :: calls, s =>
    let (s, taken) := call.run json codec s
    let (s, rest) := runCalls calls s
    (s, taken.toList ++ rest)

end Calls

/-! ### Requests -/

/-- A request, the calls of its handler, and whether the inner service answers with a response. -/
structure Exchange (V : Type) where
  headers : HeaderMap
  decodedAt : Duration
  random : List UInt8
  calls : List (SessionCall V)
  answered : Bool
  surroundings : Surroundings V

/-- `extract_session_cookie` -/
def extractSessionCookie (headers : HeaderMap) (cookieName : List Char) : Option (List Char) :=
  extractCookie headers cookieName

section Service
variable {V : Type} (json : SerdeJson V) (hmac : List UInt8 → List UInt8 → List UInt8) (store : SignedCookieStore)
  (codec : MessageCodec V) (x : Exchange V)

/-- The session that the handler gets. -/
def Exchange.opened : SessionInner V :=
  match extractSessionCookie x.headers store.cookieName with
  | some cookieVal => (store.decode json hmac x.decodedAt cookieVal).getD (.newEmpty json x.random)
  | none => .newEmpty json x.random

/-- The session that the handler leaves. -/
def Exchange.left : SessionInner V := (runCalls json codec x.calls (x.opened json hmac store)).1

/-- What the handler has taken. -/
def Exchange.delivered : List (List Message) := (runCalls json codec x.calls (x.opened json hmac store)).2

/-- `set_cookie_val` -/
def SignedCookieStore.setCookieVal (cookieValue : String) : List Char :=
  store.cookieName ++ '=' :: cookieValue.toList ++ "; Path=/; HttpOnly; SameSite=Lax; Max-Age=".toList ++
    (toString store.maxAge.asSecs).toList ++ if store.secure then "; Secure".toList else []

def SessionInner.shouldSave (s : SessionInner V) : Bool := s.modified || s.new

/-- The `Set-Cookie` header of the response; the outer `none` stands for no response. -/
def Exchange.respond : Option (Option (List Char)) :=
  if x.answered then
    let left := x.left json hmac store codec
    if left.shouldSave then
      (store.encode json hmac x.surroundings left).map fun (cookieValue, _) =>
        let setCookie := store.setCookieVal cookieValue
        if isHeaderText setCookie then some setCookie else none
    else some none
  else none

end Service

/-! ### One client -/

/-- The value of a cookie that a response sets. -/
def givenValue (setCookie : List Char) : List Char := ((setCookie.takeWhile (· ≠ ';')).dropWhile (· ≠ '=')).tail

/-- The cookie that the client was given last, and when it expires. -/
structure Given where
  value : List Char
  expiresAt : Nat

/-- The name of one cookie in a header. -/
def nameOf (cookie : List Char) : List Char := (Text.trim cookie).takeWhile (· ≠ '=')

/-- A header whose cookies have other names. -/
def Foreign (cookieName : List Char) (header : List UInt8) : Prop :=
  ∀ text, Http.toStr header = some text → ∀ cookie ∈ text.splitOn ';', nameOf cookie ≠ cookieName

/-- The headers carry a cookie, in any place behind cookies with other names; up to there they are visible ASCII. -/
def Carries (cookieName value : List Char) (headers : HeaderMap) : Prop :=
  ∃ before header after text, headers.getAll "cookie".toList = before ++ header :: after ∧
    (∀ other ∈ before, Foreign cookieName other ∧ (Http.toStr other).isSome = true) ∧ Http.toStr header = some text ∧
    ∃ earlier cookie later, text.splitOn ';' = earlier ++ cookie :: later ∧
      (∀ other ∈ earlier, nameOf other ≠ cookieName) ∧ Text.trim cookie = cookieName ++ '=' :: value

section Conversation
variable {V : Type} (json : SerdeJson V) (hmac : List UInt8 → List UInt8 → List UInt8) (store : SignedCookieStore)
  (codec : MessageCodec V)

/-- The client keeps the cookie of a response. -/
def Exchange.receive (x : Exchange V) (given : Option Given) : Option Given :=
  match x.respond json hmac store codec, store.expiresAt x.surroundings.now with
  | some (some setCookie), some expiresAt => some ⟨givenValue setCookie, expiresAt⟩
  | _, _ => given

/-- The cookie that a session is saved in. -/
def Exchange.issue (x : Exchange V) : Issue V := ⟨x.surroundings, x.left json hmac store codec⟩

/-- The client sends back the cookie that it was given last, which has not expired; and there is a response, with a
    cookie that can be read back when the session is saved. -/
structure Exchange.Follows (x : Exchange V) (given : Option Given) : Prop where
  first : given = none → ∀ header ∈ x.headers.getAll "cookie".toList, Foreign store.cookieName header
  sent : ∀ g, given = some g → Carries store.cookieName g.value x.headers ∧ x.decodedAt.asSecs < g.expiresAt
  response : (x.respond json hmac store codec).isSome = true
  readsBack : (x.left json hmac store codec).shouldSave = true → (x.issue json hmac store codec).ReadsBack json

/-- The requests of a client, one after the other. -/
def Conversation : Option Given → List (Exchange V) → Prop
  | _, [] => True
  | given, x :: xs =>
    x.Follows json hmac store codec given ∧ Conversation (x.receive json hmac store codec given) xs

/-- The data of an application. -/
def SessionInner.application (s : SessionInner V) : Data V := s.data.erase sessionKey

/-- Each handler finds what the one before it has left. -/
def Continuous (xs : List (Exchange V)) : Prop :=
  xs.IsChain fun x y => (y.opened json hmac store).application = (x.left json hmac store codec).application

/-- All messages that handlers have taken. -/
def deliveries (xs : List (Exchange V)) : List (List Message) := xs.flatMap (·.delivered json hmac store codec)

end Conversation

/-! ### Messages that are due -/

section Due
variable {V : Type} (codec : MessageCodec V)

/-- The messages that the next `take` owes after a call. Clearing the session drops them, and so does whoever writes or
    removes the value under their key. -/
def SessionCall.due (pending : List Message) : SessionCall V → List Message
  | .add message => pending ++ [message]
  | .take => []
  | .clear _ => []
  | .remove key => if key = messagesKey then [] else pending
  | .set key (some value) => if key = messagesKey then (codec.fromValue value).getD [] else pending
  | .set _ none => pending
  | .cycleKey => pending

/-- What the takes among some calls deliver: each all messages that are due. -/
def dueDeliveries : List Message → List (SessionCall V) → List (List Message)
  | _, [] => []
  | pending, .take :: calls => pending :: dueDeliveries [] calls
  | pending, call :: calls => dueDeliveries (call.due codec pending) calls

end Due

/-- What the takes among some calls deliver when each message waits for the next take, whatever happens. -/
def owedDeliveries {V : Type} : List Message → List (SessionCall V) → List (List Message)
  | _, [] => []
  | pending, .take :: calls => pending :: owedDeliveries [] calls
  | pending, .add message :: calls => owedDeliveries (pending ++ [message]) calls
  | pending, _ :: calls => owedDeliveries pending calls

/-- A token of printable ASCII characters, as RFC names of cookies are. -/
def isCookieName (name : List Char) : Bool :=
  name ≠ [] && name.all fun c => 33 ≤ c.toNat && c.toNat ≤ 126 && !"()<>@,;:\\\"/[]?=\x7b\x7d".toList.contains c

end Djangors.Sessions
