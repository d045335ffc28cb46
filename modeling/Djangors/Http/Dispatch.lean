import Djangors.Http.Router

/-! # Dispatch

`handle_dispatch` and the three functions that take a request from the server to it
(`djangors-core/src/router.rs`). -/

namespace Djangors.Http

structure ApiError where
  status : Nat
  code : List Char
  message : List Char

inductive DjangorsError where
  | notFound
  | badRequest (message : List Char)
  | internal (message : List Char)
  | panicked (message : List Char)
  | unauthorized (message : List Char)
  | forbidden (message : List Char)
  | tooManyRequests (message : List Char)
  | api (error : ApiError)

def DjangorsError.statusCode : DjangorsError → Nat
  | .notFound => 404
  | .badRequest _ => 400
  | .internal _ => 500
  | .panicked _ => 500
  | .unauthorized _ => 401
  | .forbidden _ => 403
  | .tooManyRequests _ => 429
  | .api error => error.status

structure Response where
  status : Nat
  headers : HeaderMap
  body : List UInt8

structure StreamingResponse where
  status : Nat
  headers : HeaderMap

inductive ResponseKind where
  | standard (response : Response)
  | streaming (response : StreamingResponse)

def ResponseKind.status : ResponseKind → Nat
  | .standard response => response.status
  | .streaming response => response.status

/-- How the task of a handler ends. A panic may carry a text. -/
inductive TaskResult (R : Type) where
  | done (result : Except DjangorsError R)
  | panicked (payload : Option (List Char))
  | failed (reason : List Char)

def TaskResult.joined {R : Type} : TaskResult R → Except DjangorsError R
  | .done result => result
  | .panicked payload => .error (.panicked (payload.getD "unknown panic message".toList))
  | .failed reason => .error (.internal ("handler task execution failed: ".toList ++ reason))

/-- `Handler` and `StreamingHandler` -/
abbrev Handler (R : Type) := Request → PathParams → TaskResult R

abbrev App := Router (HandlerKind (Handler Response) (Handler StreamingResponse))

/-- What happens while a request is dispatched: the two signals, and the call of a handler. -/
inductive Event where
  | requestStarted (method : Method) (path : List Char)
  | handlerCalled (idx : Nat) (req : Request) (params : PathParams)
  | requestFinished (method : Method) (path : List Char) (status : Nat)

/-- `handle_dispatch`. An index that `match_path` returns is the index of a route. -/
def App.handleDispatch (app : App) (req : Request) : List Event × Except DjangorsError ResponseKind :=
  let matched := (app.matchPath req.path req.method).bind fun found => app.routes[found.1]?.map (found, ·)
  let calls := match matched with
    | some ((idx, params), _) => [.handlerCalled idx req params]
    | none => []
  let res := match matched with
    | some ((_, params), route) =>
      match route.handler with
      | .standard handler => (handler req params).joined.map .standard
      | .streaming handler => (handler req params).joined.map .streaming
    | none => .error .notFound
  let status := match res with
    | .ok kind => kind.status
    | .error err => err.statusCode
  (.requestStarted req.method req.path :: calls ++ [.requestFinished req.method req.path status], res)

/-- `handle` -/
def App.handle (app : App) (req : Request) : List Event × Except DjangorsError Response :=
  let (events, res) := app.handleDispatch req
  (events, res.bind fun kind => match kind with
    | .standard response => .ok response
    | .streaming _ =>
      .error (.internal "Streaming response cannot be handled via buffered handle() call".toList))

/-- A reply: a response, or an error with the function that renders it. -/
inductive Reply where
  | response (kind : ResponseKind)
  | renderBasic (err : DjangorsError) (req : Request)
  | render (err : DjangorsError) (req : Request) (debug : Bool)

/-! ### The pending check -/

section Pending
variable (parseForm : List UInt8 → Option (List Char → Option (List Char)))

/-- The token in a form. -/
def formToken (req : Request) : Option (List Char) :=
  let isFormContentType := ((req.header "content-type").bind toStr).any fun contentType =>
    "application/x-www-form-urlencoded".toList.isPrefixOf contentType
  if isFormContentType then (parseForm req.body).bind fun form => form "csrfmiddlewaretoken".toList else none

def tokenBytes (token : List Char) : List UInt8 := Text.bytes (String.ofList token)

/-- `constant_time_eq` -/
def constantTimeEq (a b : List UInt8) : Bool :=
  if a.length ≠ b.length then false
  else (a.zip b).foldl (fun acc pair => acc ||| (pair.1 ^^^ pair.2)) 0 == 0

/-- Whether a request is refused that is marked for a check of its form. -/
def pendingCheckFails (req : Request) : Bool :=
  match req.extensions.csrfPendingFormCheck with
  | none => false
  | some pending => !((formToken parseForm req).map fun token => constantTimeEq (tokenBytes token) (tokenBytes pending)).getD false

/-- What the dispatch functions have in common: how an error is rendered, and how a request is handled, is up to them. -/
def dispatchWith (render : DjangorsError → Request → Reply) (handle : Request → List Event × Except DjangorsError ResponseKind)
    (hyper : HyperRequest) : List Event × Reply :=
  match hyper.body with
  | .error e =>
    ([], render (.internal ("failed to read request body: ".toList ++ e))
      ⟨hyper.method, hyper.path, hyper.headers, ⟨none, none⟩, []⟩)
  | .ok bytes =>
    let req : Request := ⟨hyper.method, hyper.path, hyper.headers, hyper.extensions, bytes⟩
    if pendingCheckFails parseForm req then
      ([], render (.forbidden "CSRF token missing or invalid".toList) req)
    else
      let (events, res) := handle req
      (events, match res with
        | .ok kind => .response kind
        | .error err => render err req)

namespace App
variable (app : App)

/-- `Router::dispatch` -/
def dispatch : HyperRequest → List Event × Reply :=
  dispatchWith parseForm .renderBasic fun req => (app.handle req).map id (·.map .standard)

/-- `Router::dispatch_debug` -/
def dispatchDebug (debug : Bool) : HyperRequest → List Event × Reply :=
  dispatchWith parseForm (.render · · debug) fun req => (app.handle req).map id (·.map .standard)

/-- `Router::dispatch_boxed` -/
def dispatchBoxed (debug : Bool) : HyperRequest → List Event × Reply :=
  dispatchWith parseForm (.render · · debug) app.handleDispatch

end App
end Pending

end Djangors.Http

/-! ## Streaming responses

`StreamingResponse::sse` (`djangors-core/src/sse.rs`). -/

namespace Djangors.Http

/-- A streaming response with the chunks of its stream. -/
structure Streamed where
  response : StreamingResponse
  stream : List (List UInt8)

/-- The frame of an item. -/
def sseChunk (item : String) : String := "data: " ++ item ++ "\n\n"

/-- `StreamingResponse::sse` -/
def StreamingResponse.sse (stream : List String) : Streamed where
  response :=
    ⟨200, [("content-type".toList, Text.bytes "text/event-stream"), ("cache-control".toList, Text.bytes "no-cache"),
      ("connection".toList, Text.bytes "keep-alive")]⟩
  stream := stream.map fun item => Text.bytes (sseChunk item)

/-- The bytes that a client receives. -/
def Streamed.body (streamed : Streamed) : List UInt8 := streamed.stream.flatten

end Djangors.Http
