import Djangors.Http.Request
import Djangors.Orm.Terminal
import Djangors.Rest.Cursor

/-! # Tenant resolution

The middleware that resolves the tenant of a request, and `tenant_scope` (`djangors-contrib-tenancy`: `middleware.rs`,
`scope.rs`, `models.rs`). -/

namespace Djangors.Tenancy
open Db Sql Http Orm

/-! ### Models -/

def membershipMeta : ModelMeta where
  structName := "TenantMembership"
  appLabel := "djangors_contrib_tenancy"
  tableName := "djangors_tenancy_membership"
  fields := [{ name := "id", columnName := "id", kind := .bigInt, primaryKey := true, auto := true, unique := true,
               dbIndex := true },
    { name := "role", columnName := "role", kind := .char, maxLength := some 50 },
    { name := "created_at", columnName := "created_at", kind := .dateTime }]
  relations := [{ fieldName := "user", kind := .foreignKey, target := "User" },
    { fieldName := "tenant", kind := .foreignKey, target := "Tenant" }]
  uniqueTogether := [["user", "tenant"]]

/-! ### Requests -/

/-- What the middleware puts into the extensions of a request: `CurrentTenant` and `TenantResolutionFailed`. -/
structure TenantExtensions where
  currentTenant : Option Int := none
  resolutionFailed : Bool := false
deriving DecidableEq, Repr

/-- A request on its way to the handler: its headers, its tenancy extensions, and `χ` for all else, among it what other
    middleware has put into the extensions. -/
structure TenantRequest (χ : Type) where
  headers : HeaderMap
  rest : χ
  extensions : TenantExtensions

/-- `value.parse::<i64>()` -/
def parseId (text : List Char) : Option Int := Text.parseSigned (2 ^ 63) text

/-- The tenant that the `X-Tenant-Id` header names; of several headers the first one counts. -/
def tenantHeader (headers : HeaderMap) : Option Int :=
  ((headers.get "x-tenant-id".toList).bind toStr).bind parseId

/-- The database: its server and tables, how a row of a membership is decoded, and the error with which every statement
    fails while it is out of reach. -/
structure Database (ι : Type) where
  server : Server
  tables : Tables Cell
  fromRow : Row Cell → Except OrmError ι
  outage : Option OrmError

section Resolve
variable [Fmt] {χ ι : Type} (D : Database ι)

/-- The query set of the memberships of a user in a tenant. -/
def memberships (uid tenantId : Int) : Except OrmError (QuerySet membershipMeta) := do
  let qs ← ({} : QuerySet membershipMeta).filter (.and [⟨"user", .i64 uid⟩])
  qs.filter (.and [⟨"tenant", .i64 tenantId⟩])

/-- `qs.first(&*db)` -/
def Database.first (qs : QuerySet membershipMeta) : Except OrmError (Option ι) :=
  match D.outage with
  | some e => .error e
  | none => qs.first D.server D.tables false D.fromRow

def lookup (uid tenantId : Int) : Except OrmError (Option ι) := do
  let qs ← memberships uid tenantId
  D.first qs

/-- `TenantResolutionService::call`, as far as the request that it passes on. -/
def resolve (userIdExtractor : TenantRequest χ → Option Int) (req : TenantRequest χ) : TenantRequest χ :=
  match tenantHeader req.headers, userIdExtractor req with
  | some tenantId, some uid =>
    match lookup D uid tenantId with
    | .ok (some _) => { req with extensions.currentTenant := some tenantId }
    | .ok none => req
    | .error _ => { req with extensions.resolutionFailed := true }
  | _, _ => req

end Resolve

/-- `tenant_scope`, on the extensions that dispatching hands to the handler. -/
def tenantScope {m : ModelMeta} (ext : TenantExtensions) (qs : QuerySet m) (tenantField : String) :
    Except DjangorsError (QuerySet m) :=
  if ext.resolutionFailed then .error (.internal "tenant membership lookup failed".toList)
  else
    match ext.currentTenant with
    | none => .error (.unauthorized "no current tenant on request".toList)
    | some tenant => Rest.internal (qs.filter (.and [⟨tenantField, .i64 tenant⟩]))

end Djangors.Tenancy
