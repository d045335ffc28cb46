import Djangors.Http.Request
import Djangors.Lib.Paths
import Djangors.Lib.Text

/-! # Routes

Patterns, `reverse` and `match_path` of a router (`djangors-core/src/router.rs`). -/

namespace Djangors.Http

inductive CaptureType where
  | string
  | i64
  | slug
  deriving DecidableEq, Repr

namespace CaptureType

def isSlugChar (c : Char) : Bool := c.isAlphanum || c == '-' || c == '_'

/-- The test of `match_path` on a part. -/
def accepts : CaptureType → List Char → Bool
  | .string, _ => true
  | .i64, part => (Text.parseSigned (2 ^ 63) part).isSome
  | .slug, part => part.all isSlugChar

/-- The values that a capture is for. -/
def Valid : CaptureType → List Char → Prop
  | .string, _ => True
  | .i64, value => (Text.parseSigned (2 ^ 63) value).isSome
  | .slug, value => value ≠ [] ∧ value.all isSlugChar

end CaptureType

inductive Segment where
  | literal (text : List Char)
  | capture (type : CaptureType)
  deriving DecidableEq, Repr

/-- A part of a pattern: a segment, and its name when it is a capture. -/
inductive Slot where
  | literal (text : List Char)
  | capture (type : CaptureType) (name : List Char)
  deriving DecidableEq, Repr

namespace Slot

def segment : Slot → Segment
  | .literal text => .literal text
  | .capture type _ => .capture type

def name? : Slot → Option (List Char)
  | .literal _ => none
  | .capture _ name => some name

end Slot

/-- What a part of a pattern means. -/
def parsePart (part : List Char) : Slot :=
  if part.head? = some '{' ∧ part.getLast? = some '}' then
    let inner := part.tail.dropLast
    let name := inner.takeWhile (· ≠ ':')
    match inner.drop name.length with
    | [] => .capture .string inner
    | _ :: ty => .capture (if ty = "i64".toList then .i64 else if ty = "slug".toList then .slug else .string) name
  else
    match part with
    | ':' :: name => .capture .string name
    | _ => .literal part

/-- The parts of a pattern. -/
def slotsOf (pattern : List Char) : List Slot := ((pattern.splitOn '/').filter (· ≠ [])).map parsePart

/-- `parse_pattern` -/
def parsePattern (pattern : List Char) : List Segment × List (List Char) :=
  ((slotsOf pattern).map Slot.segment, (slotsOf pattern).filterMap Slot.name?)

/-- A standard or a streaming handler. -/
inductive HandlerKind (Standard Streaming : Type) where
  | standard (handler : Standard)
  | streaming (handler : Streaming)

structure Route (H : Type) where
  pattern : List Char
  method : Method
  segments : List Segment
  paramNames : List (List Char)
  handler : H
  name : Option (List Char)
  parsed : (segments, paramNames) = parsePattern pattern

/-- No two routes of a router have one name. -/
structure Router (H : Type) where
  routes : List (Route H)
  names : (routes.filterMap (·.name)).Nodup

inductive ReverseError where
  | unknownName (name : List Char)
  | missingParam (route param : List Char)
  | unexpectedParam (route param : List Char)
  deriving DecidableEq, Repr

namespace Route
variable {H : Type}

/-- A route as it is registered for a pattern. -/
def ofPattern (pattern : List Char) (method : Method) (handler : H) (name : Option (List Char)) : Route H where
  pattern := pattern
  method := method
  segments := (parsePattern pattern).1
  paramNames := (parsePattern pattern).2
  handler := handler
  name := name
  parsed := rfl

def slots (route : Route H) : List Slot := slotsOf route.pattern

end Route

namespace Router
variable {H : Type}

def new : Router H := ⟨[], by simp⟩

/-- `any(|r| r.name == Some(name))` -/
def hasName (router : Router H) (name : List Char) : Bool := router.routes.any (·.name == some name)

/-- Adds a route, unless its name is taken. -/
def push (router : Router H) (route : Route H) (h : ∀ name, route.name = some name → router.hasName name = false) :
    Router H where
  routes := router.routes ++ [route]
  names := by
    rw [List.filterMap_append, List.nodup_append]
    refine ⟨router.names, ?_, ?_⟩
    · cases hname : route.name <;> simp [hname]
    · rintro name hname _ hroute rfl
      rcases List.mem_filterMap.mp hname with ⟨other, hmem, hother⟩
      rcases List.mem_filterMap.mp hroute with ⟨_, hsingle, hroute⟩
      rw [List.mem_singleton.mp hsingle] at hroute
      exact List.any_eq_false.mp (h name hroute) other hmem (beq_iff_eq.mpr hother)

/-- `route` and `route_streaming` -/
def route (router : Router H) (path : List Char) (method : Method) (handler : H) : Router H :=
  router.push (.ofPattern (Path.trimSlashes path) method handler none) (by rintro name ⟨⟩)

/-- `name` renames the route that was registered last. It panics when there is none, or when the name is taken. -/
def name (router : Router H) (name : List Char) : Option (Router H) :=
  match hlast : router.routes.getLast? with
  | none => none
  | some last =>
    if h : router.hasName name then none
    else some (push ⟨router.routes.dropLast, router.names.sublist ((List.dropLast_sublist _).filterMap _)⟩
      { last with name := some name } (by
        rintro _ ⟨⟩
        refine List.any_eq_false.mpr fun other hmem => ?_
        exact List.any_eq_false.mp (Bool.not_eq_true _ ▸ h) other ((List.dropLast_sublist _).mem hmem)))

/-- The pattern of a route under a prefix. -/
def fullPattern (pre pattern : List Char) : List Char := if pattern = [] then pre else pre ++ '/' :: pattern

/-- One turn of the loop of `mount`. It panics when the name is taken. -/
def mountRoute (router : Router H) (pre : List Char) (route : Route H) : Option (Router H) :=
  if h : ∀ name, route.name = some name → router.hasName name = false then
    some (router.push (.ofPattern (fullPattern pre route.pattern) route.method route.handler route.name) h)
  else none

/-- `mount` -/
def mount (router : Router H) (pre : List Char) (subRouter : Router H) : Option (Router H) :=
  subRouter.routes.foldlM (·.mountRoute (Path.trimSlashes pre) ·) router

end Router

/-! ### Reversing -/

/-- `PATH_SEGMENT_SET` -/
def pathSegmentSet (c : Char) : Bool :=
  c.toNat < 32 || c.toNat == 127 || c ∈ [' ', '"', '#', '<', '>', '?', '`', '{', '}', '/']

section Reverse
variable {H : Type} (encoding : Path.PercentEncoding)

/-- The parts of the path of a route. There is none where `param_names[param_idx]` or `unwrap` panics. -/
def fillSegments (params : List (List Char × List Char)) :
    List Segment → List (List Char) → Option (List (List Char))
  | [], _ => some []
  | .literal lit :: segments, names => (fillSegments params segments names).map (lit :: ·)
  | .capture _ :: _, [] => none
  | .capture _ :: segments, name :: names => do
    let val ← params.lookup name
    let parts ← fillSegments params segments names
    return encoding.encode pathSegmentSet val :: parts

/-- `reverse`; `none` is a panic. -/
def Router.reverse (router : Router H) (name : List Char) (params : List (List Char × List Char)) :
    Option (Except ReverseError (List Char)) :=
  match router.routes.find? (·.name == some name) with
  | none => some (.error (.unknownName name))
  | some route =>
    match params.find? (·.1 ∉ route.paramNames) with
    | some (key, _) => some (.error (.unexpectedParam name key))
    | none =>
      match route.paramNames.find? fun param => params.all (·.1 ≠ param) with
      | some param => some (.error (.missingParam name param))
      | none => (fillSegments encoding params route.segments route.paramNames).map fun parts => .ok ('/' :: Path.join parts)

end Reverse

/-! ### Matching -/

/-- The loop of `match_path` over the segments of a route and as many parts. -/
def matchSegments : List Segment → List (List Char) → List (List Char) → PathParams → Option PathParams
  | [], _, _, params => some params
  | _ :: _, _, [], _ => none
  | .literal expected :: segments, names, part :: parts, params =>
    if part = expected then matchSegments segments names parts params else none
  | .capture type :: segments, names, part :: parts, params =>
    if type.accepts part then
      match names with
      | [] => matchSegments segments [] parts params
      | name :: names => matchSegments segments names parts (params.insert name part)
    else none

/-- One turn of the loop of `match_path` over the routes. -/
def Route.matchParts {H : Type} (route : Route H) (method : Method) (parts : List (List Char)) : Option PathParams :=
  if route.method ≠ method then none
  else if route.segments.length ≠ parts.length then none
  else matchSegments route.segments route.paramNames parts .new

/-- `match_path` -/
def Router.matchPath {H : Type} (router : Router H) (path : List Char) (method : Method) : Option (Nat × PathParams) :=
  router.routes.zipIdx.findSome? fun entry => (entry.1.matchParts method (Path.parts path)).map (entry.2, ·)

/-! ### What a path is reversed for -/

section Assignments
variable {H : Type}

/-- Parameters for a route: a valid value for each of its captures, and no others. -/
structure Route.Assigned (route : Route H) (params : List (List Char × List Char)) : Prop where
  known : ∀ entry ∈ params, entry.1 ∈ route.paramNames
  valid : ∀ type name, .capture type name ∈ route.slots → ∃ value, params.lookup name = some value ∧ type.Valid value

/-- An earlier route matches. -/
def Router.Earlier (router : Router H) (idx : Nat) (path : List Char) (method : Method) : Prop :=
  ∃ j < idx, ∃ route, router.routes[j]? = some route ∧ (route.matchParts method (Path.parts path)).isSome

/-- The route is selected, and its handler sees the parameters. -/
def Router.Selects (router : Router H) (idx : Nat) (path : List Char) (method : Method)
    (params : List (List Char × List Char)) : Prop :=
  ∃ seen, router.matchPath path method = some (idx, seen) ∧ ∀ key, seen.get key = params.lookup key

/-- No value has a character that is encoded, and none is empty that stands at an end of the path. -/
structure Route.Survives (route : Route H) (params : List (List Char × List Char)) : Prop where
  kept : ∀ name value, params.lookup name = some value → ∀ c ∈ value, Path.Kept pathSegmentSet c
  ends : ∀ type name, route.slots.head? = some (.capture type name) ∨ route.slots.getLast? = some (.capture type name) →
    params.lookup name ≠ some []

end Assignments

end Djangors.Http
