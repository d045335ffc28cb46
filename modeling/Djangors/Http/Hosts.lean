import Djangors.Http.Dispatch
import Djangors.Migrations.Plan

/-! # Host validation

`HostValidationLayer` (`djangors-core/src/middleware.rs`), and what a `Host` header has to hold. -/

namespace Djangors.Http
open Migrations (CaseMap)

structure HostValidationLayer where
  allowedHosts : List String

/-- `HostValidationLayer::new` -/
def HostValidationLayer.new [CaseMap] (allowedHosts : List String) : HostValidationLayer :=
  ⟨allowedHosts.map CaseMap.toLowercase⟩

/-- The `Host` header, or the authority of the URI where there is none. -/
def hostStr (authority : Option (List Char)) (req : HyperRequest) : Option (List Char) :=
  match req.headers.get "host".toList with
  | some hdr => toStr hdr
  | none => authority

/-- A value up to its first closing bracket, or up to its first colon. -/
def hostWithoutPort (h : List Char) : List Char :=
  if h.head? = some '[' then
    if ']' ∈ h then h.takeWhile (· ≠ ']') ++ [']'] else h
  else h.takeWhile (· ≠ ':')

namespace HostValidationLayer
variable [CaseMap] (layer : HostValidationLayer) (authority : Option (List Char)) (req : HyperRequest)

def isValid : Bool :=
  if layer.allowedHosts.isEmpty then true
  else match hostStr authority req with
    | some h =>
      let hostLower := CaseMap.toLowercase (String.ofList (hostWithoutPort h))
      layer.allowedHosts.any fun allowed => allowed == hostLower
    | none => false

/-- `HostValidationService::call`: the answer of the inner service, or one of its own. -/
def call {α : Type} (inner : HyperRequest → α) : Except Response α :=
  if layer.isValid authority req then .ok (inner req)
  else .error ⟨400, [], Text.bytes "400 Bad Request: Disallowed Host"⟩

end HostValidationLayer

/-! ### Allowed values -/

/-- An address in brackets. -/
def IsLiteral (host : List Char) : Prop := ∃ address, ']' ∉ address ∧ host = '[' :: (address ++ [']'])

def IsName (host : List Char) : Prop := host.head? ≠ some '[' ∧ ':' ∉ host

/-- Nothing, or a colon with digits behind it. -/
def IsPort (port : List Char) : Prop :=
  port = [] ∨ ∃ digits, port = ':' :: digits ∧ digits ≠ [] ∧ ∀ c ∈ digits, c.isDigit = true

/-- A host is in the allow list, in any ASCII case. -/
def Listed (hosts : List String) (host : List Char) : Prop :=
  ∃ allowed ∈ hosts, allowed.toList.map Char.toLower = host.map Char.toLower

/-- `host` or `host:digits` for a listed host -/
def AllowedValue (hosts : List String) (value : List Char) : Prop :=
  ∃ host port, value = host ++ port ∧ (IsLiteral host ∨ IsName host) ∧ IsPort port ∧ Listed hosts host

/-- A text is the `Host` header of a request, or its authority where it has no such header. -/
def HasHost (authority : Option (List Char)) (req : HyperRequest) (value : List Char) : Prop :=
  match req.headers.get "host".toList with
  | some hdr => tokenBytes value = hdr
  | none => authority = some value

end Djangors.Http
