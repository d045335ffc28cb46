import Djangors.Rest.Throttling

/-! # Endpoints

The handlers of `ViewSet` and of `ScopedViewSet`, and the routes they are mounted on
(`djangors-rest/src/viewsets.rs`). -/

namespace Djangors.Rest
open Db Http Orm Sql

/-- The response of an endpoint. -/
inductive Reply where
  | list (envelope : Envelope (Json F64))
  | record (status : Nat) (body : Json F64)
  | invalid (errors : List (String × String))
  | noContent

section Steps
variable {m : Model} {α : Type}

def orStop (result : Except Stop α) : Action m α :=
  Fallible.lift (result.mapError fun
    | .err e => .error (.internal (ormMessage e).toList)
    | .panic => .panic)

/-- The key in the path. -/
def pkOf (req : ApiRequest) : Except DjangorsError Int := do
  let text ← orElse req.pk (.badRequest "Missing primary key parameter".toList)
  orElse (Text.parseSigned (2 ^ 63) text) (.badRequest "Invalid primary key".toList)

def primaryKey (m : Model) : Except DjangorsError FieldMeta :=
  orElse m.info.primaryKey? (.internal "Primary key field not found".toList)

/-- The rows of a query set with a key. -/
def withPk (qs : QuerySet m.info) (pkField : FieldMeta) (pk : Int) : Except DjangorsError (QuerySet m.info) :=
  internal (qs.filter (.and [⟨pkField.name, .i64 pk⟩]))

def literals (values : List (String × Value)) : List (String × SetExpr) :=
  values.map fun (column, value) => (column, .literal value)

end Steps

/-- `ViewSetOptions`, with its throttle. -/
structure EndpointOptions (m : Model) extends ViewSetOptions m where
  throttle : Option RateLimiter := none

/-! ### View sets -/

namespace ViewSet
variable [Fmt] [Wire] {m : Model}

/-- `json_body` -/
def jsonBody (req : ApiRequest) : Except DjangorsError (Json F64) :=
  req.body.mapError fun e => .api ⟨400, "invalid_json".toList, "Failed to parse JSON body: ".toList ++ e⟩

/-- `DjangorsError::from` -/
def validationFailed : DjangorsError := .api ⟨422, "validation_error".toList, "Validation failed".toList⟩

/-- `serializer.parse(&json_val, partial)?` -/
def parseBody (options : EndpointOptions m) (req : ApiRequest) (partly : Bool) : Except DjangorsError (List (String × Value)) := do
  let json ← jsonBody req
  (options.serializer.parse json partly).mapError fun _ => validationFailed

/-- `retrieve`: the record with a key, or 404. -/
def fetchOne (render : m.Instance → Json F64) (status : Nat) (qs : QuerySet m.info) : Action m Reply := do
  match ← ask (.get qs) with
  | .ok item => return .record status (render item)
  | .error (.notFound _) => fail .notFound
  | .error e => fail (.internal (ormMessage e).toList)

/-- The record that has been written. -/
def fetchWritten (render : m.Instance → Json F64) (status : Nat) (qs : QuerySet m.info) : Action m Reply := do
  let item ← ask (.get qs)
  let item : m.Instance ← orFail (internal item)
  return .record status (render item)

/-- `list_with_options`, behind the throttle. -/
def list (options : EndpointOptions m) (req : ApiRequest) : Action m Reply := do
  let envelope ← ask (.list fun S db fromRow => listWithOptions S db fromRow options.toViewSetOptions req.query.get)
  let envelope : Envelope (Json F64) ← Fallible.lift envelope
  return .list envelope

/-- `retrieve_with_options`, behind the throttle. -/
def retrieve (options : EndpointOptions m) (req : ApiRequest) : Action m Reply := do
  let pk ← orFail (pkOf req)
  let pkField ← orFail (primaryKey m)
  let qs ← orFail (withPk {} pkField pk)
  fetchOne options.serializer.toRepresentation 200 qs

/-- `create_with_options`, behind the throttle. -/
def create (options : EndpointOptions m) (req : ApiRequest) : Action m Reply := do
  let fieldValues ← orFail (parseBody options req false)
  let pk ← ask (.insertRaw fieldValues)
  let pk : Int ← orStop pk
  let pkField ← orFail (primaryKey m)
  let qs ← orFail (withPk {} pkField pk)
  fetchWritten options.serializer.toRepresentation 201 qs

/-- `update_with_options`, behind the throttle. -/
def update (options : EndpointOptions m) (req : ApiRequest) : Action m Reply := do
  let pk ← orFail (pkOf req)
  let fieldValues ← orFail (parseBody options req (req.method = .patch))
  let pkField ← orFail (primaryKey m)
  let qs ← orFail (withPk {} pkField pk)
  let updatedRows ← ask (.update qs (literals fieldValues))
  let updatedRows : Nat ← orFail (internal updatedRows)
  if updatedRows = 0 then fail .notFound else fetchWritten options.serializer.toRepresentation 200 qs

/-- `destroy` -/
def destroy (req : ApiRequest) : Action m Reply := do
  let pk ← orFail (pkOf req)
  let deletedCount ← ask (.deleteByPk pk)
  let deletedCount : Nat ← orStop deletedCount
  if deletedCount = 0 then fail .notFound else return .noContent

/-- `throttle.check(&req).await?`, and what comes behind it. -/
def throttled [CounterJson] (options : EndpointOptions m) (handler : EndpointOptions m → ApiRequest → Action m Reply)
    (req : ApiRequest) : Action m Reply :=
  match options.throttle with
  | some throttle => do
    throttle.check req
    handler options req
  | none => handler options req

end ViewSet

/-! ### Scoped view sets -/

namespace ScopedViewSet
variable [Fmt] [Wire] {m : Model} (scope : Scope m) (req : ApiRequest)

/-- `serialize` -/
def render (item : m.Instance) : Json F64 := .object (serialize m item)

/-- The body of a request. -/
def jsonBody : Except DjangorsError (Json F64) :=
  req.body.mapError fun e => .badRequest ("Failed to parse JSON body: ".toList ++ e)

/-- The rows in scope with a key. -/
def inScope (pkField : FieldMeta) (pk : Int) : Except DjangorsError (QuerySet m.info) := do
  let qs ← scope {}
  withPk qs pkField pk

def retrieve : Action m Reply := do
  let pk ← orFail (pkOf req)
  let pkField ← orFail (primaryKey m)
  let qs ← orFail (inScope scope pkField pk)
  ViewSet.fetchOne render 200 qs

def create : Action m Reply := do
  let _ ← orFail (scope {})
  let json ← orFail (jsonBody req)
  match deserializeInner m.info json false with
  | .error errors => return .invalid errors
  | .ok values =>
    let pk ← ask (.insertRaw values)
    let pk : Int ← orStop pk
    let pkField ← orFail (primaryKey m)
    let qs ← orFail (inScope scope pkField pk)
    ViewSet.fetchWritten render 201 qs

def update : Action m Reply := do
  let pk ← orFail (pkOf req)
  let json ← orFail (jsonBody req)
  match deserializeInner m.info json false with
  | .error errors => return .invalid errors
  | .ok values =>
    let pkField ← orFail (primaryKey m)
    let qs ← orFail (inScope scope pkField pk)
    let updated ← ask (.update qs (literals values))
    let updated : Nat ← orFail (internal updated)
    if updated = 0 then fail .notFound
    else do
      let qs ← orFail (inScope scope pkField pk)
      ViewSet.fetchWritten render 200 qs

def destroy : Action m Reply := do
  let pk ← orFail (pkOf req)
  let pkField ← orFail (primaryKey m)
  let qs ← orFail (inScope scope pkField pk)
  match ← ask (.get qs) with
  | .error _ => fail .notFound
  | .ok _ =>
    let n ← ask (.deleteByPk pk)
    let n : Nat ← orStop n
    if n = 0 then fail .notFound else return .noContent

end ScopedViewSet

/-! ### Routes -/

section Routes
variable {m : Model}

abbrev Endpoint (m : Model) := ApiRequest → Action m Reply

/-- `guarded` -/
def guarded (permission : Permission m) (handler : Endpoint m) : Endpoint m := fun req =>
  (permission.hasPermission req).bind fun
    | true => handler req
    | false => fail (.unauthorized "not authenticated".toList)

variable [Fmt] [Wire] [CounterJson]

/-- `viewset_routes_with_options` -/
def viewsetRoutesWithOptions (router : Router (Endpoint m)) (basePath : List Char) (options : EndpointOptions m)
    (permission : Permission m) : Router (Endpoint m) :=
  let cleanBase := basePath.rdropWhile (· = '/')
  let detailPath := cleanBase ++ "/{pk:i64}".toList
  let listCreatePath := if cleanBase = [] then ['/'] else cleanBase
  let handler (method : EndpointOptions m → Endpoint m) := guarded permission (ViewSet.throttled options method)
  (((((router.route listCreatePath .get (handler ViewSet.list)).route listCreatePath .post (handler ViewSet.create)).route
    detailPath .get (handler ViewSet.retrieve)).route detailPath .put (handler ViewSet.update)).route
    detailPath .patch (handler ViewSet.update)).route detailPath .delete (guarded permission ViewSet.destroy)

end Routes

/-! ### Running on a table -/

/-- Runs a call on a table that has the columns of its model: an assignment to another column is refused. -/
def execTable [Fmt] {m : Model} (B : Backend m) : (call : ViewCall m) → World B.cache → World B.cache × call.Answer
  | .update qs sets, w =>
    if sets.all fun set => decide ((fieldToCol m.info set.1).name ∈ m.info.columns) then exec B (.update qs sets) w
    else (w.ran w.tables, .error (.query "column does not exist"))
  | call, w => exec B call w

end Djangors.Rest
