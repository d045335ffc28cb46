import Djangors.Rest.Viewsets
import Djangors.Theorems.Keyset

/-! # The scoped and the unscoped list

A list endpoint narrows and orders a query set as a request asks, and reads a page of it. The two copies of it differ
in the size of the page and in the number of the page that they read. -/

namespace Djangors.Rest
open Db Http Orm Sql

/-! ### The query set of a request -/

section Builder
variable {m : ModelMeta} {qs qs' : QuerySet m}

/-- A query set with filters and an ordering alone. -/
structure Windowless (qs : QuerySet m) : Prop where
  limit : qs.limit = none
  offset : qs.offset = none
  search : qs.searchCondition = none

theorem windowless_new : Windowless ({} : QuerySet m) := ⟨rfl, rfl, rfl⟩

theorem Windowless.filter {expr : UnresolvedExpr} (h : Windowless qs) (heq : qs.filter expr = .ok qs') : Windowless qs' := by
  obtain ⟨e, -, heq⟩ := Except.bind_eq_ok.mp heq
  cases heq
  exact ⟨h.limit, h.offset, h.search⟩

/-- `name` is neither a field nor a relation of the model. -/
def Unknown (m : ModelMeta) (name : String) : Prop := m.field? name = none ∧ m.relation? name = none

theorem order_eq_ok {field : String} (h : qs.order field = .ok qs') :
    ∃ entry, qs' = { qs with orderBy := qs.orderBy ++ [entry] } := by
  simp only [QuerySet.order] at h
  split at h
  · exact ⟨_, (Except.ok.inj h).symm⟩
  · split at h
    · exact ⟨_, (Except.ok.inj h).symm⟩
    · cases h

theorem order_isOk (qs : QuerySet m) {field : String} : (∃ qs', qs.order field = .ok qs') ↔ ¬Unknown m (stripDash field).1 := by
  simp only [QuerySet.order, Unknown]
  split
  · rename_i f hf
    simp [hf]
  · rename_i hf
    split
    · rename_i r hr
      simp [hr]
    · rename_i hr
      simp [hf, hr]

theorem Windowless.order {field : String} (h : Windowless qs) (heq : qs.order field = .ok qs') : Windowless qs' := by
  obtain ⟨entry, rfl⟩ := order_eq_ok heq
  exact ⟨h.limit, h.offset, h.search⟩

theorem checkFieldMeta_isOk {name : String} : (∃ field, checkFieldMeta m name = .ok field) ↔ ¬Unknown m name := by
  have hfields : m.field? name = none ↔ m.fields.any (·.name == name) = false := by
    simp [ModelMeta.field?, List.find?_eq_none]
  have hrelations : m.relation? name = none ↔ m.relations.any (·.fieldName == name) = false := by
    simp [ModelMeta.relation?, List.find?_eq_none]
  rw [checkFieldMeta, Unknown, hfields, hrelations]
  cases m.fields.any (·.name == name) <;> cases m.relations.any (·.fieldName == name) <;> simp

theorem filter_isOk {field : String} {value : Value} :
    (∃ qs', qs.filter (.and [⟨field, value⟩]) = .ok qs') ↔ ¬Unknown m (splitFieldLookup field).1 := by
  rw [← checkFieldMeta_isOk]
  rcases hsplit : splitFieldLookup field with ⟨name, suffix⟩
  rw [QuerySet.filter, resolveExpr, resolveExprWithMeta, List.mapM_cons, List.mapM_nil, resolveCompare]
  simp only [hsplit]
  cases checkFieldMeta m name with
  | error e => exact ⟨fun ⟨_, h⟩ => (by cases h), fun ⟨_, h⟩ => (by cases h)⟩
  | ok field => exact ⟨fun _ => ⟨field, rfl⟩, fun _ => ⟨_, rfl⟩⟩

end Builder

section Requests
variable {m : Model} {config : ViewSetConfig} {params : QueryParams}

theorem Windowless.applyOrdering {fields : List String} {ordered ordered' : Ordered m.info} {part : List Char}
    (h : Windowless ordered.qs) (heq : Rest.applyOrdering fields ordered part = .ok ordered') : Windowless ordered'.qs := by
  simp only [Rest.applyOrdering] at heq
  split at heq
  · cases heq
    exact h
  · split at heq
    · obtain ⟨qs, hqs, heq⟩ := Except.bind_eq_ok.mp heq
      cases heq
      exact h.order (internal_eq_ok.mp hqs)
    · cases heq
      exact h

theorem applyOrdering_isOk {fields : List String} {ordered : Ordered m.info} {part : List Char} :
    (∃ ordered', applyOrdering fields ordered part = .ok ordered') ↔
      (Text.trim part ≠ [] → (stripDash (String.ofList (Text.trim part))).1 ∈ fields →
        ¬Unknown m.info (stripDash (String.ofList (Text.trim part))).1) := by
  have hempty : String.ofList (Text.trim part) = "" ↔ Text.trim part = [] := by
    rw [← String.toList_inj, String.toList_ofList]
    rfl
  simp only [applyOrdering, hempty]
  split
  · rename_i htrim
    simp [htrim]
  · rename_i htrim
    split
    · rename_i hmem
      simp only [ne_eq, htrim, not_false_eq_true, forall_const, hmem]
      rw [← order_isOk ordered.qs]
      constructor
      · rintro ⟨ordered', heq⟩
        obtain ⟨qs, hqs, -⟩ := Except.bind_eq_ok.mp heq
        exact ⟨qs, internal_eq_ok.mp hqs⟩
      · rintro ⟨qs, hqs⟩
        exact ⟨_, Except.bind_eq_ok.mpr ⟨qs, internal_eq_ok.mpr hqs, rfl⟩⟩
    · rename_i hmem
      simp [hmem]

theorem windowless_orderFields {qs : QuerySet m.info} {ordered : Ordered m.info} (h : Windowless qs)
    (hordered : orderFields config params qs = .ok ordered) : Windowless ordered.qs := by
  rw [orderFields] at hordered
  split at hordered
  · cases hordered
    exact h
  · exact Except.foldlM_induct (P := fun ordered : Ordered m.info => Windowless ordered.qs) hordered h
      fun _ _ _ _ h heq => h.applyOrdering heq

theorem orderFields_isOk (qs : QuerySet m.info) : (∃ ordered, orderFields config params qs = .ok ordered) ↔
    ∀ ordering, params "ordering" = some ordering → ∀ part ∈ ordering.toList.splitOn ',',
      Text.trim part ≠ [] → (stripDash (String.ofList (Text.trim part))).1 ∈ config.orderableFields →
        ¬Unknown m.info (stripDash (String.ofList (Text.trim part))).1 := by
  rw [orderFields]
  split
  · rename_i hnone
    simp [hnone]
  · rename_i ordering hordering
    refine (Except.foldlM_isOk (f := applyOrdering config.orderableFields) fun _ _ => applyOrdering_isOk).trans ?_
    simp [hordering]

variable [Wire]

/-- A parameter of the request filters by a name that the model lacks, or `ordering` does so. -/
def Refuses (m : ModelMeta) (config : ViewSetConfig) (params : QueryParams) : Prop :=
  (∃ field ∈ config.filterableFields, ((params field).bind (parseFilterValue m field)).isSome = true ∧
    Unknown m (splitFieldLookup field).1) ∨
  ∃ ordering, params "ordering" = some ordering ∧ ∃ part ∈ ordering.toList.splitOn ',',
    Text.trim part ≠ [] ∧ (stripDash (String.ofList (Text.trim part))).1 ∈ config.orderableFields ∧
      Unknown m (stripDash (String.ofList (Text.trim part))).1

theorem Windowless.applyFilter {field : String} {qs qs' : QuerySet m.info} (h : Windowless qs)
    (heq : Rest.applyFilter params qs field = .ok qs') : Windowless qs' := by
  rw [Rest.applyFilter] at heq
  split at heq
  · exact h.filter (internal_eq_ok.mp heq)
  · cases heq
    exact h

theorem applyFilter_isOk {field : String} {qs : QuerySet m.info} : (∃ qs', applyFilter params qs field = .ok qs') ↔
    (((params field).bind (parseFilterValue m.info field)).isSome = true → ¬Unknown m.info (splitFieldLookup field).1) := by
  rw [applyFilter]
  split
  · rename_i value hvalue
    simp only [internal_eq_ok, filter_isOk, hvalue, Option.isSome_some, forall_const]
  · rename_i hvalue
    simp [hvalue]

/-- The query set of a request for a model without further filters. -/
def requested (m : Model) (config : ViewSetConfig) (params : QueryParams) : Except DjangorsError (Ordered m.info) :=
  filterFields config params {} >>= orderFields config params

theorem requested_isOk : (∃ ordered, requested m config params = .ok ordered) ↔ ¬Refuses m.info config params := by
  have hfilters : (∃ qs : QuerySet m.info, filterFields config params {} = .ok qs) ↔ ∀ field ∈ config.filterableFields,
      ((params field).bind (parseFilterValue m.info field)).isSome = true → ¬Unknown m.info (splitFieldLookup field).1 :=
    Except.foldlM_isOk fun _ _ => applyFilter_isOk
  simp only [Refuses, not_or, not_exists, not_and]
  rw [← hfilters]
  constructor
  · rintro ⟨ordered, h⟩
    obtain ⟨qs, hqs, hordered⟩ := Except.bind_eq_ok.mp h
    exact ⟨⟨qs, hqs⟩, (orderFields_isOk qs).mp ⟨ordered, hordered⟩⟩
  · rintro ⟨⟨qs, hqs⟩, hordering⟩
    obtain ⟨ordered, hordered⟩ := (orderFields_isOk qs).mpr hordering
    exact ⟨ordered, Except.bind_eq_ok.mpr ⟨qs, hqs, hordered⟩⟩

theorem windowless_requested {ordered : Ordered m.info} (h : requested m config params = .ok ordered) :
    Windowless ordered.qs := by
  obtain ⟨qs, hqs, hordered⟩ := Except.bind_eq_ok.mp h
  exact windowless_orderFields (Except.foldlM_induct hqs windowless_new fun _ _ _ _ h heq => h.applyFilter heq) hordered

end Requests

/-! ### A page of the rows -/

theorem orFailure_bind {α β : Type} (x : Except DjangorsError α) (f : α → Except DjangorsError β) :
    orFailure (x >>= f) = orFailure x >>= fun a => orFailure (f a) := by
  cases x <;> rfl

theorem offset_empty (size : Int) {page : Int} (hpage : 1 ≤ page) : (⟨0, size⟩ : Paginator).offset page = .ok 0 := by
  have hclamp : max 1 (min page 1) = 1 := by omega
  have hzero : i64 (1 - 1) = .ok 0 := rfl
  have hproduct : i64 (0 * size) = .ok 0 := by rw [Int.zero_mul]; rfl
  simp only [Paginator.offset, Paginator.totalPages, if_true]
  change (i64 (max 1 (min page 1) - 1) >>= fun before => i64 (before * size)) = .ok 0
  rw [hclamp, hzero]
  exact hproduct

theorem toRepresentation_all [Wire] {m : Model} (x : m.Instance) : (Serializer.model {} [] : Serializer m).toRepresentation x =
    .object (serialize m x) := by
  simp [Serializer.toRepresentation, FieldSet.isReadable, FieldSet.inScope]

section Pages
variable [Fmt] {m : Model} (S : Server) (db : Tables Cell) (fromRow : Row Cell → Except OrmError m.Instance)
  {config : ViewSetConfig} {params : QueryParams}

theorem count_eq {qs : QuerySet m.info} (h : qs.searchCondition = none) :
    count S db qs = .ok ((db m.info.tableName).countP (qs.keeps S db)) := by
  have hbound : (qs.compileSelectWithOrder "COUNT(*)" false S.dialect).bound = .ofFilters (qs.boundFilters S.dialect) := by
    have hsearch : (qs.compileSelectWithOrder "COUNT(*)" false S.dialect).bound =
        .withSearch ("SELECT COUNT(*) FROM \"" ++ m.info.tableName ++ "\"") (qs.boundFilters S.dialect) qs.searchCondition :=
      Where.map_withSearch _ _ _ _
    rw [hsearch, h]
    rfl
  rw [count]
  split
  · rename_i text hdangling
    exact absurd (hbound.symm.trans hdangling) (Where.ofFilters_ne_dangling _ text)
  · refine congrArg Except.ok (List.countP_congr fun r _ => ?_)
    rw [hbound, selects_ofFilters]
    rfl

variable [Wire]

/-- A list of pages of `perPage` rows that answers with page `page`. -/
def listPage (config : ViewSetConfig) (params : QueryParams) (perPage page : Int) : Except Failure (Envelope (Json F64)) := do
  let ordered ← orFailure (requested m config params)
  let total ← orFailure (internal (count S db ordered.qs))
  if config.cursorPagination then
    listByCursor S db fromRow (fun x => .object (serialize m x)) params perPage total ordered
  else
    let paginator ← Paginator.new total perPage
    let offset ← paginator.offset page
    let items ← orFailure (internal (all S db (instances m fromRow) ((ordered.qs.withLimit perPage).withOffset offset)))
    let totalPages ← paginator.totalPages
    return .page total page totalPages (items.map fun x => .object (serialize m x))

/-- The page that the scoped list reads. -/
def scopedPage (query : Query) : Int := max ((query.raw.bind parsePageParam).getD 1) 1

theorem scoped_eq (query : Query) : ScopedViewSet.listWithConfig S db fromRow .ok config query =
    listPage S db fromRow config query.get (config.resolvePageSize query.get) (scopedPage query) := by
  rw [listPage, requested, orFailure_bind, bind_assoc]
  rfl

theorem unscoped_eq : ViewSet.listWithConfig S db fromRow config params =
    listPage S db fromRow config params restPerPage (requestedPage params) := by
  have hrender : (Serializer.model {} [] : Serializer m).toRepresentation = fun x => .object (serialize m x) :=
    funext toRepresentation_all
  have hsize : resolveSize params restPerPage none = restPerPage := rfl
  have hnew : ∀ total : Nat, Paginator.new total restPerPage = .ok ⟨max total 0, restPerPage⟩ := fun _ => rfl
  rw [listPage, requested, orFailure_bind, bind_assoc]
  have hpure : ∀ qs : QuerySet m.info, orFailure (pure qs) = pure qs := fun _ => rfl
  simp only [ViewSet.listWithConfig, ViewSet.listWithOptions, ViewSetOptions.new, List.foldlM_nil, hrender,
    Pagination.pageSize, Pagination.slice, Pagination.envelope, hsize, hpure, pure_bind]
  refine bind_congr fun qs => bind_congr fun ordered => bind_congr fun total => ?_
  split
  · rfl
  · have hok {β : Type} (p : Paginator) (f : Paginator → Except Failure β) : (Except.ok p >>= f) = f p := rfl
    simp only [hnew, hok, bind_assoc, pure_bind]

/-! ### Agreement -/

/-- What the two endpoints promise for a request: one answer at every state of the database, and pages of the size
    that the configuration resolves. -/
structure Agree (S : Server) (fromRow : Row Cell → Except OrmError m.Instance) (config : ViewSetConfig) (query : Query) :
    Prop where
  answer : ∀ db, ScopedViewSet.listWithConfig S db fromRow .ok config query =
    ViewSet.listWithConfig S db fromRow config query.get
  size : (ViewSetOptions.new config : ViewSetOptions m).pagination.pageSize query.get = config.resolvePageSize query.get

/-- The page of an empty table carries the number that was asked for. -/
theorem listPage_empty {ordered : Ordered m.info} (hrequested : requested m config params = .ok ordered)
    (hcursor : config.cursorPagination = false) {page : Int} (hpage : 1 ≤ page) :
    listPage S (fun _ => []) fromRow config params restPerPage page = .ok (.page 0 page 1 []) := by
  have hplain := windowless_requested hrequested
  have hcount : count S (fun _ => []) ordered.qs = .ok 0 := count_eq S _ hplain.search
  have hnew : Paginator.new 0 restPerPage = .ok ⟨0, restPerPage⟩ := rfl
  have hnone : S.arrange (ordered.qs.orderSource true) [] = [] := (S.arrange_perm _ []).eq_nil
  have hall : all S (fun _ => []) (instances m fromRow) ((ordered.qs.withLimit restPerPage).withOffset 0) = .ok [] := by
    have hsearch : ((ordered.qs.withLimit restPerPage).withOffset 0).searchCondition = none := hplain.search
    rw [all, fetch_eq hsearch]
    change (S.limited (some restPerPage) ((S.arrange (ordered.qs.orderSource true) []).drop 0) >>=
      List.mapM (instances m fromRow).fromRow) = .ok []
    rw [hnone]
    rfl
  have hpages : (⟨0, restPerPage⟩ : Paginator).totalPages = .ok 1 := rfl
  rw [listPage]
  refine Except.bind_eq_ok.mpr ⟨ordered, orFailure_eq_ok.mpr hrequested, ?_⟩
  refine Except.bind_eq_ok.mpr ⟨0, orFailure_eq_ok.mpr (internal_eq_ok.mpr hcount), ?_⟩
  rw [if_neg (by simp [hcursor])]
  refine Except.bind_eq_ok.mpr ⟨_, hnew, Except.bind_eq_ok.mpr ⟨0, offset_empty restPerPage hpage, ?_⟩⟩
  refine Except.bind_eq_ok.mpr ⟨[], orFailure_eq_ok.mpr (internal_eq_ok.mpr hall), ?_⟩
  exact Except.bind_eq_ok.mpr ⟨1, hpages, rfl⟩

/-- The endpoints agree on a request that asks for pages of the default size and, unless cursors take the place of
    page numbers or the request is refused, whose page number reads the same with and without percent-decoding. -/
theorem agree_iff {query : Query} : Agree S fromRow config query ↔
    config.resolvePageSize query.get = restPerPage ∧
      (config.cursorPagination = true ∨ Refuses m.info config query.get ∨ scopedPage query = requestedPage query.get) := by
  constructor
  · intro h
    have hsize : config.resolvePageSize query.get = restPerPage := h.size.symm
    refine ⟨hsize, or_iff_not_imp_left.mpr fun hcursor => or_iff_not_imp_left.mpr fun haccepts => ?_⟩
    obtain ⟨ordered, hrequested⟩ := requested_isOk.mpr haccepts
    have hcursor : config.cursorPagination = false := by simpa using hcursor
    have hanswer := h.answer fun _ => []
    have hscoped : 1 ≤ scopedPage query := le_max_right ..
    have hunscoped : 1 ≤ requestedPage query.get := le_max_right ..
    rw [scoped_eq, unscoped_eq, hsize, listPage_empty S fromRow hrequested hcursor hscoped,
      listPage_empty S fromRow hrequested hcursor hunscoped] at hanswer
    simpa using hanswer
  · rintro ⟨hsize, hpage⟩
    refine ⟨fun db => ?_, hsize.symm⟩
    rw [scoped_eq, unscoped_eq, hsize]
    rcases hpage with hcursor | hrefuses | hpage
    · simp only [listPage, hcursor, if_true]
    · cases hrequested : requested m config query.get with
      | error e =>
        have hrefused : ∀ page, listPage S db fromRow config query.get restPerPage page = .error (.error e) := fun page => by
          rw [listPage, hrequested]
          rfl
        rw [hrefused, hrefused]
      | ok ordered => exact absurd hrefuses (requested_isOk.mp ⟨ordered, hrequested⟩)
    · rw [hpage]

end Pages

/-! ### Posts, one on each page -/

section Posts

/-- A wire without floats and times. -/
@[reducible] def Wire.integers : Wire where
  f64 := fun _ => none
  rfc3339 := fun _ => none
  naive := fun _ => none
  toRfc3339 := fun _ => ""
  f64OfInt := fun _ => .nan

attribute [local instance] Wire.integers Fmt.decimal

def postModel : Model := ⟨postMeta, Int × String, fun post => [("id", .i64 post.1), ("title", .text post.2)]⟩

def readPost (row : Row Cell) : Except OrmError (Int × String) :=
  match row.lookup "id", row.lookup "title" with
  | some (.i64 id), some (.text title) => .ok (id, title)
  | _, _ => .error (.query "no column found")

def twoPosts : Tables Cell := fun t =>
  if t = "blog_post" then [[("id", .i64 1), ("title", .text "rust")], [("id", .i64 2), ("title", .text "lean")]] else []

/-- With one post a page, the scoped list shows the first post and the unscoped one both. -/
theorem page_size_ignored :
    (∃ first second,
      ScopedViewSet.listWithConfig (m := postModel) plainServer twoPosts readPost .ok { pageSize := some 1 } ⟨id, none⟩ =
        .ok (.page 2 1 2 [first]) ∧
      ViewSet.listWithConfig (m := postModel) plainServer twoPosts readPost { pageSize := some 1 } (Query.get ⟨id, none⟩) =
        .ok (.page 2 1 1 [first, second])) ∧
    ¬Agree (m := postModel) plainServer readPost { pageSize := some 1 } ⟨id, none⟩ := by
  refine ⟨⟨_, _, rfl, rfl⟩, fun h => ?_⟩
  have hsize := h.size
  exact absurd hsize (by decide)

example : scopedPage ⟨id, some "page=2&page=3".toList⟩ = 2 := by decide
example : requestedPage (Query.get ⟨id, some "page=2&page=3".toList⟩) = 3 := by decide

end Posts

end Djangors.Rest
