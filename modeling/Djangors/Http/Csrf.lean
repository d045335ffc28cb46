import Djangors.Http.Dispatch

/-! # CSRF protection

`CsrfLayer` (`djangors-core/src/middleware.rs`), and what its requests have to carry. -/

namespace Djangors.Http

structure CsrfLayer where
  cookieName : List Char
  headerName : List Char
  secure : Bool

/-- `CsrfLayer::new` -/
def CsrfLayer.new : CsrfLayer := ⟨"csrftoken".toList, "x-csrftoken".toList, false⟩

/-- The inner loop of `extract_cookie`. It returns when it finds the name, with or without a value. -/
def findCookie (cookieName : List Char) : List (List Char) → Option (Option (List Char))
  | [] => none
  | cookie :: cookies =>
    if (Text.trim cookie).takeWhile (· ≠ '=') = cookieName then
      match (Text.trim cookie).dropWhile (· ≠ '=') with
      | [] => some none
      | _ :: val => some (some val)
    else findCookie cookieName cookies

/-- `extract_cookie`, for the values of the `Cookie` headers. -/
def extractFrom (cookieName : List Char) : List (List UInt8) → Option (List Char)
  | [] => none
  | cookieHeader :: rest =>
    match toStr cookieHeader with
    | none => none
    | some cookieStr =>
      match findCookie cookieName (cookieStr.splitOn ';') with
      | some found => found
      | none => extractFrom cookieName rest

/-- `extract_cookie` -/
def extractCookie (headers : HeaderMap) (cookieName : List Char) : Option (List Char) :=
  extractFrom cookieName (headers.getAll "cookie".toList)

/-- `generate_csrf_token`, from the bytes of the random number generator. -/
def generateCsrfToken (random : List UInt8) : List Char :=
  random.flatMap fun byte => [Nat.digitChar (byte.toNat / 16), Nat.digitChar (byte.toNat % 16)]

/-- Whether a text may be a header value. -/
def isHeaderText (text : List Char) : Bool := text.all fun c => c == '\t' || 32 ≤ c.toNat && c.toNat != 127

def Method.isUnsafe (method : Method) : Bool := method == .post || method == .put || method == .patch || method == .delete

namespace CsrfLayer
variable (layer : CsrfLayer) (random : List UInt8) (req : HyperRequest)

/-- The token of a request, and whether it is generated. -/
def tokenValue : List Char × Bool :=
  match extractCookie req.headers layer.cookieName with
  | some val => if val ≠ [] then (val, false) else (generateCsrfToken random, true)
  | none => (generateCsrfToken random, true)

/-- The request as it is passed on. -/
def marked : HyperRequest :=
  let token := (layer.tokenValue random req).1
  let isValid := (req.headers.get layer.headerName).any fun headerVal => constantTimeEq headerVal (tokenBytes token)
  let pending := if req.method.isUnsafe && !isValid then some token else req.extensions.csrfPendingFormCheck
  { req with extensions := ⟨some token, pending⟩ }

/-- The cookie that a response sets. -/
def setCookie : Option (List Char) :=
  let (token, generated) := layer.tokenValue random req
  let text := layer.cookieName ++ '=' :: token ++ "; Path=/; SameSite=Lax; Max-Age=31536000".toList ++
    if layer.secure then "; Secure".toList else []
  if generated && isHeaderText text then some text else none

/-- `CsrfService::call`; the answer of the inner service, and the cookie that is added to it. -/
def call {α : Type} (inner : HyperRequest → α) : α × Option (List Char) :=
  (inner (layer.marked random req), layer.setCookie random req)

end CsrfLayer

/-! ### What a request carries -/

/-- A `Cookie` header with a value for the name. -/
def HasCookie (headers : HeaderMap) (cookieName value : List Char) : Prop :=
  ∃ header ∈ headers.getAll "cookie".toList, ∃ text, toStr header = some text ∧
    ∃ cookie ∈ text.splitOn ';', Text.trim cookie = cookieName ++ '=' :: value

section Carries
variable (parseForm : List UInt8 → Option (List Char → Option (List Char)))

/-- An urlencoded form with the token. -/
def HasFormToken (req : HyperRequest) (token : List Char) : Prop :=
  ∃ body, req.body = .ok body ∧
    (∃ header contentType, req.headers.get "content-type".toList = some header ∧ toStr header = some contentType ∧
      "application/x-www-form-urlencoded".toList <+: contentType) ∧
    ∃ form, parseForm body = some form ∧ form "csrfmiddlewaretoken".toList = some token

def HasHeaderToken (layer : CsrfLayer) (req : HyperRequest) (token : List Char) : Prop :=
  req.headers.get layer.headerName = some (tokenBytes token)

/-- A token in the cookie, and the same in the header or in the form. -/
def Authorized (layer : CsrfLayer) (req : HyperRequest) : Prop :=
  ∃ token, token ≠ [] ∧ HasCookie req.headers layer.cookieName token ∧
    (HasHeaderToken layer req token ∨ HasFormToken parseForm req token)

/-- No request carries a token before it is generated. -/
def Unguessed (layer : CsrfLayer) (random : List UInt8) (req : HyperRequest) : Prop :=
  ¬HasHeaderToken layer req (generateCsrfToken random) ∧ ¬HasFormToken parseForm req (generateCsrfToken random)

/-- The functions that a server binding calls. -/
inductive DispatchPath where
  | dispatch
  | dispatchDebug (debug : Bool)
  | dispatchBoxed (debug : Bool)

def DispatchPath.run (app : App) : DispatchPath → HyperRequest → List Event × Reply
  | .dispatch => app.dispatch parseForm
  | .dispatchDebug debug => app.dispatchDebug parseForm debug
  | .dispatchBoxed debug => app.dispatchBoxed parseForm debug

/-- What happens to a request behind the layer. -/
def events (layer : CsrfLayer) (random : List UInt8) (app : App) (path : DispatchPath) (req : HyperRequest) : List Event :=
  (layer.call random req (path.run parseForm app)).1.1

end Carries

end Djangors.Http
