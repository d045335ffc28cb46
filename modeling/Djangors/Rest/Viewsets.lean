import Djangors.Rest.Pagination
import Djangors.Rest.Serializers

/-! # View sets

The list endpoints of `ViewSet` and `ScopedViewSet` (`djangors-rest/src/viewsets.rs`). -/

namespace Djangors.Rest
open Db Http Orm Sql

/-- `ViewSetConfig` -/
structure ViewSetConfig where
  filterableFields : List String := []
  orderableFields : List String := []
  cursorPagination : Bool := false
  pageSize : Option Int := none
  maxPageSize : Option Int := none

/-- `ViewSetConfig::resolve_page_size` -/
def ViewSetConfig.resolvePageSize (config : ViewSetConfig) (params : QueryParams) : Int :=
  resolveSize params (config.pageSize.getD restPerPage) config.maxPageSize

/-- `ViewSetOptions`, for a list that is not throttled. -/
structure ViewSetOptions (m : Model) where
  config : ViewSetConfig := {}
  serializer : Serializer m := .model {} []
  pagination : Pagination := .pageNumber restPerPage none
  filterBackends : List (FilterBackend m.info) := []

/-- `ViewSetOptions::new` -/
def ViewSetOptions.new {m : Model} (config : ViewSetConfig) : ViewSetOptions m := { config }

section List
variable [Fmt] [Wire] {m : Model}

/-- The loop over the filterable fields. -/
def filterFields (config : ViewSetConfig) (params : QueryParams) (qs : QuerySet m.info) :
    Except DjangorsError (QuerySet m.info) :=
  config.filterableFields.foldlM (applyFilter params) qs

/-- The loop over the `ordering` parameter. -/
def orderFields (config : ViewSetConfig) (params : QueryParams) (qs : QuerySet m.info) : Except DjangorsError (Ordered m.info) :=
  match params "ordering" with
  | none => .ok ⟨qs, none⟩
  | some ordering => (ordering.toList.splitOn ',').foldlM (applyOrdering config.orderableFields) ⟨qs, none⟩

/-- The rows of a query set as instances of the model. -/
def instances (m : Model) (fromRow : Row Cell → Except OrmError m.Instance) : Decoding m.Instance := ⟨fromRow, m.fieldValues⟩

/-- `per_page as usize` -/
def asUsize (n : Int) : Nat := (n % 2 ^ 64).toNat

/-- The branch of both list endpoints that pages by cursors. -/
def listByCursor (S : Server) (db : Tables Cell) (fromRow : Row Cell → Except OrmError m.Instance)
    (render : m.Instance → Json F64) (params : QueryParams) (perPage total : Int) (ordered : Ordered m.info) :
    Except Failure (Envelope (Json F64)) := do
  let (orderField, descending) ← orFailure (orElse ordered.cursorOrdering
    (.badRequest "Cursor pagination requires an allowlisted ordering field".toList))
  let pk ← orFailure (orElse m.info.primaryKey? (.internal "Primary key field not found".toList))
  let qs ← match params "cursor" with
    | none => .ok ordered.qs
    | some rawCursor => orFailure (afterCursor ordered.qs orderField pk.name descending rawCursor)
  let qs ← orFailure (orderLast qs orderField pk.name descending)
  let limit ← i64 (perPage + 1)
  let fetched ← orFailure (internal (all S db (instances m fromRow) (qs.withLimit limit)))
  let items := fetched.take (asUsize perPage)
  let nextCursor :=
    if asUsize perPage < fetched.length then
      items.getLast?.map (cursorAfter (instances m fromRow) orderField pk.name)
    else none
  return .cursor total (items.map render) nextCursor

variable (S : Server) (db : Tables Cell) (fromRow : Row Cell → Except OrmError m.Instance)

/-- `ViewSet::list_with_options` -/
def ViewSet.listWithOptions (options : ViewSetOptions m) (params : QueryParams) : Except Failure (Envelope (Json F64)) := do
  let perPage := options.pagination.pageSize params
  let qs ← orFailure (filterFields options.config params {})
  let qs ← orFailure (options.filterBackends.foldlM (fun qs backend => backend.filterQueryset params qs) qs)
  let ordered ← orFailure (orderFields options.config params qs)
  let total ← orFailure (internal (count S db ordered.qs))
  if options.config.cursorPagination then
    listByCursor S db fromRow options.serializer.toRepresentation params perPage total ordered
  else
    let slice ← options.pagination.slice params total
    let items ← orFailure (internal
      (all S db (instances m fromRow) ((ordered.qs.withLimit slice.limit).withOffset slice.offset)))
    options.pagination.envelope params total (items.map options.serializer.toRepresentation)

/-- `ViewSet::list_with_config` -/
def ViewSet.listWithConfig (config : ViewSetConfig) (params : QueryParams) : Except Failure (Envelope (Json F64)) :=
  listWithOptions S db fromRow (.new config) params

/-- `parse_page_param`: the text of the first `page` that has a value, as it stands in the query string. -/
def parsePageParam (query : List Char) : Option Int :=
  ((query.splitOn '&').find? fun pair => '=' ∈ pair ∧ (splitPair pair).1 = "page".toList).bind fun pair =>
    Text.parseSigned (2 ^ 63) (splitPair pair).2

/-- `Scoped::scope` for one request. -/
abbrev Scope (m : Model) := QuerySet m.info → Except DjangorsError (QuerySet m.info)

/-- `ScopedViewSet::list_with_config` -/
def ScopedViewSet.listWithConfig (scope : Scope m) (config : ViewSetConfig) (query : Query) :
    Except Failure (Envelope (Json F64)) := do
  let page := max ((query.raw.bind parsePageParam).getD 1) 1
  let perPage := config.resolvePageSize query.get
  let qs ← orFailure (scope {})
  let qs ← orFailure (filterFields config query.get qs)
  let ordered ← orFailure (orderFields config query.get qs)
  let total ← orFailure (internal (count S db ordered.qs))
  if config.cursorPagination then
    listByCursor S db fromRow (fun x => .object (serialize m x)) query.get perPage total ordered
  else
    let paginator ← Paginator.new total perPage
    let offset ← paginator.offset page
    let items ← orFailure (internal (all S db (instances m fromRow) ((ordered.qs.withLimit perPage).withOffset offset)))
    let totalPages ← paginator.totalPages
    return .page total page totalPages (items.map fun x => .object (serialize m x))

end List
end Djangors.Rest
