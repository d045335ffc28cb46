import Djangors.Http.Dispatch
import Djangors.Lib.Json

/-! # Error responses

How errors become responses (`djangors-core`: `error.rs`, `debug_page.rs`, `response.rs`), and what the three dispatch
functions answer. -/

namespace Djangors.Http

namespace Response

def ofContent (status : Nat) (contentType : String) (body : List Char) : Response :=
  ⟨status, [("content-type".toList, Text.bytes contentType)], Text.bytes (String.ofList body)⟩

def text (status : Nat) (body : List Char) : Response := ofContent status "text/plain; charset=utf-8" body

def html (status : Nat) (body : List Char) : Response := ofContent status "text/html; charset=utf-8" body

def json (status : Nat) (body : List Char) : Response := ofContent status "application/json; charset=utf-8" body

end Response

def htmlEscape (input : List Char) : List Char :=
  input.flatMap fun c => match c with
    | '<' => "&lt;".toList
    | '>' => "&gt;".toList
    | '&' => "&amp;".toList
    | '"' => "&quot;".toList
    | '\'' => "&#x27;".toList
    | '/' => "&#x2F;".toList
    | c => [c]

/-- What rendering depends on: the renderer that a project has registered, the page for developers, the reasons of
    status codes, and the JSON text of the details of an application's error. -/
structure Rendering where
  renderer : Option (DjangorsError → Request → Response)
  debugPage : DjangorsError → Request → Response
  canonicalReason : Nat → Option (List Char)
  details : ApiError → Option (List Char)

namespace DjangorsError

def code : DjangorsError → List Char
  | .notFound => "not_found".toList
  | .badRequest _ => "bad_request".toList
  | .internal _ => "internal".toList
  | .panicked _ => "panicked".toList
  | .unauthorized _ => "unauthorized".toList
  | .forbidden _ => "forbidden".toList
  | .tooManyRequests _ => "too_many_requests".toList
  | .api error => error.code

def message : DjangorsError → List Char
  | .notFound => "Not Found".toList
  | .badRequest message | .internal message | .panicked message | .unauthorized message | .forbidden message
  | .tooManyRequests message => message
  | .api error => error.message

/-- `prefers_json` -/
def prefersJson (err : DjangorsError) (req : Request) : Bool :=
  match err with
  | .api _ => true
  | _ => ((req.header "accept").bind toStr).any fun accept => decide ("application/json".toList <:+: accept)

section Render
variable (env : Rendering)

/-- `details` -/
def details : DjangorsError → Option (List Char)
  | .api error => env.details error
  | _ => none

/-- `into_json_response` -/
def intoJsonResponse (err : DjangorsError) : Response :=
  .json err.statusCode <|
    "\x7b\"error\":\x7b\"status\":".toList ++ (toString err.statusCode).toList ++ ",\"code\":".toList ++
      Json.quote err.code ++ ",\"message\":".toList ++ Json.quote err.message ++
      ((err.details env).elim [] (",\"details\":".toList ++ ·)) ++ "\x7d\x7d".toList

/-- `text_response` -/
def textResponse (err : DjangorsError) : Response :=
  match err with
  | .notFound => .text err.statusCode "404 Not Found".toList
  | .badRequest message => .text err.statusCode ("400 Bad Request: ".toList ++ message)
  | .internal message => .text err.statusCode ("500 Internal Server Error: ".toList ++ message)
  | .panicked message => .text err.statusCode ("500 Internal Server Error: Handler panicked: ".toList ++ message)
  | .unauthorized message => .text err.statusCode ("401 Unauthorized: ".toList ++ message)
  | .forbidden message => .text err.statusCode ("403 Forbidden: ".toList ++ message)
  | .tooManyRequests message => .text err.statusCode ("429 Too Many Requests: ".toList ++ message)
  | .api _ => err.intoJsonResponse env

/-- `render_basic` -/
def renderBasic (err : DjangorsError) (req : Request) : Response :=
  match env.renderer with
  | some render => render err req
  | none => if err.prefersJson req then err.intoJsonResponse env else err.textResponse env

/-- The text of the page between its codes and reasons. -/
def pageStyle : List Char := "</title>
    <style>
        body \x7b
            font-family: -apple-system, BlinkMacSystemFont, \"Segoe UI\", Roboto, sans-serif;
            background-color: #f8f9fa;
            color: #495057;
            display: flex;
            align-items: center;
            justify-content: center;
            height: 100vh;
            margin: 0;
        \x7d
        .error-container \x7b
            text-align: center;
        \x7d
        h1 \x7b
            font-size: 72px;
            margin: 0;
            color: #343a40;
            font-weight: 300;
        \x7d
        p \x7b
            font-size: 20px;
            margin: 10px 0 0 0;
            color: #6c757d;
        \x7d
    </style>
</head>
<body>
    <div class=\"error-container\">
        <h1>".toList

/-- `render_production_error_page` -/
def productionErrorPage (status : Nat) : Response :=
  let code := (toString status).toList
  let reason := htmlEscape ((env.canonicalReason status).getD "Internal Server Error".toList)
  .html status <|
    "<!DOCTYPE html>\n<html>\n<head>\n    <meta charset=\"utf-8\">\n    <title>".toList ++ code ++ " — ".toList ++ reason ++
      pageStyle ++ code ++ "</h1>\n        <p>".toList ++ reason ++ "</p>\n    </div>\n</body>\n</html>".toList

/-- `DjangorsError::render` -/
def render (err : DjangorsError) (req : Request) (debug : Bool) : Response :=
  match env.renderer with
  | some render => render err req
  | none =>
    if err.prefersJson req then err.intoJsonResponse env
    else if debug then env.debugPage err req
    else productionErrorPage env err.statusCode

end Render
end DjangorsError

/-- The response of a reply. -/
def Reply.respond (env : Rendering) : Reply → ResponseKind
  | .response kind => kind
  | .renderBasic err req => .standard (err.renderBasic env req)
  | .render err req debug => .standard (err.render env req debug)

/-! ### The three functions in production -/

inductive Dispatcher where
  | dispatch
  | dispatchDebug
  | dispatchBoxed
  deriving DecidableEq

/-- The complete response that a request gets, with `debug = false`. -/
def Dispatcher.respond (env : Rendering) (parseForm : List UInt8 → Option (List Char → Option (List Char)))
    (dispatcher : Dispatcher) (app : App) (hyper : HyperRequest) : ResponseKind :=
  match dispatcher with
  | .dispatch => (app.dispatch parseForm hyper).2.respond env
  | .dispatchDebug => (app.dispatchDebug parseForm false hyper).2.respond env
  | .dispatchBoxed => (app.dispatchBoxed parseForm false hyper).2.respond env

end Djangors.Http
