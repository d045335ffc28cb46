import Djangors.Lib.Windows
import Djangors.Theorems.ListEndpoints

/-! # The pages of a table

What a client reads that asks for one page after the other, or for one window after the other, while the server may
order rows that tie as it likes, and differently for each request. -/

namespace Djangors.Rest
open Db Http Orm Sql

/-! ### Servers that break ties -/

section Ties
variable {κ : Type} [LinearOrder κ]

/-- A way to order rows by their ranks. -/
structure Ties (rank : List (String × Bool) → Row Cell → κ) where
  arrange : List (String × Bool) → List (Row Cell) → List (Row Cell)
  arranged : ∀ order rows, Windows.Arranged (rank order) rows (arrange order rows)

variable {rank : List (String × Bool) → Row Cell → κ}

/-- The server, ordering rows in this way. -/
def Ties.server (ties : Ties rank) (S : Server) : Server :=
  { S with arrange := ties.arrange, arrange_perm := fun order rows => (ties.arranged order rows).perm }

/-- Some rows are arranged as given. -/
def Ties.of {order : List (String × Bool)} {rows l : List (Row Cell)} (h : Windows.Arranged (rank order) rows l) : Ties rank where
  arrange order' rows' := if order' = order ∧ rows' = rows then l else rows'.mergeSort (rank order' · ≤ rank order' ·)
  arranged order' rows' := by
    split
    · rename_i heq
      rw [heq.1, heq.2]
      exact h
    · exact Windows.arranged_mergeSort _ _

theorem Ties.of_arrange {order : List (String × Bool)} {rows l : List (Row Cell)}
    (h : Windows.Arranged (rank order) rows l) : (Ties.of h).arrange order rows = l := if_pos ⟨rfl, rfl⟩

end Ties

/-! ### Paginators -/

theorem i64_eq {n : Int} (lower : 0 ≤ n) (upper : n < 2 ^ 63) : i64 n = .ok n := if_pos ⟨by omega, upper⟩

/-- The number of pages. -/
def pageCount (total size : Nat) : Nat := if total = 0 then 1 else (total + size - 1) / size

theorem pageCount_pos (total : Nat) {size : Nat} (hsize : 0 < size) : 0 < pageCount total size := by
  rw [pageCount]
  split
  · exact Nat.one_pos
  · exact Nat.div_pos (by omega) hsize

theorem le_windowCount {total size : Nat} (hsize : 0 < size) : total ≤ (total + size - 1) / size * size := by
  have := Nat.lt_div_mul_add hsize (a := total + size - 1)
  omega

theorem le_pageCount {total size : Nat} (hsize : 0 < size) : total ≤ pageCount total size * size := by
  rw [pageCount]
  split
  · omega
  · exact le_windowCount hsize

theorem mul_lt_of_lt_windowCount {total size k : Nat} (hsize : 0 < size) (h : k < (total + size - 1) / size) :
    k * size < total := by
  have hmul := Nat.mul_le_mul_right size (Nat.succ_le_of_lt h)
  have := Nat.div_mul_le_self (total + size - 1) size
  rw [Nat.succ_mul] at hmul
  omega

theorem mul_lt_of_lt_pageCount {total size k : Nat} (hsize : 0 < size) (h : k < pageCount total size) :
    k * size < max 1 total := by
  rw [pageCount] at h
  split at h
  · have : k = 0 := by omega
    simp [this]
  · have := mul_lt_of_lt_windowCount hsize h
    omega

/-- The sum that the number of pages is computed from is an `i64`. -/
def Fits (total size : Nat) : Prop := total = 0 ∨ total + size < 2 ^ 63

section Paginator
variable {total size : Nat}

theorem new_eq (hsize : 0 < size) : Paginator.new total size = .ok ⟨total, size⟩ := by
  rw [Paginator.new, if_pos (by omega), max_eq_left (by omega)]

theorem totalPages_eq (hsize : 0 < size) (fits : Fits total size) :
    (⟨total, size⟩ : Paginator).totalPages = .ok (pageCount total size : Nat) := by
  rw [Paginator.totalPages, pageCount]
  split
  · rename_i hzero
    rw [if_pos (by simpa using hzero)]
    rfl
  · rename_i hne
    have htotal : total ≠ 0 := by simpa using hne
    have hsum := fits.resolve_left htotal
    have hfirst : i64 ((total : Int) + size) = .ok (total + size) := i64_eq (by omega) (by omega)
    have hsecond : i64 ((total : Int) + size - 1) = .ok (total + size - 1) := i64_eq (by omega) (by omega)
    rw [if_neg htotal, hfirst]
    refine Except.bind_eq_ok.mpr ⟨_, rfl, Except.bind_eq_ok.mpr ⟨_, hsecond, ?_⟩⟩
    have hdiff : ((total + size - 1 : Nat) : Int) = total + size - 1 := by omega
    rw [Int.natCast_ediv, hdiff]
    rfl

theorem totalPages_overflows (h : ¬Fits total size) : (⟨total, size⟩ : Paginator).totalPages = .error .overflow := by
  simp only [Fits, not_or] at h
  have hsum : i64 ((total : Int) + size) = .error .overflow := if_neg (by omega)
  rw [Paginator.totalPages, if_neg (by simpa using h.1), hsum]
  rfl

/-- The number of the page that is read for `page`. -/
def readPage (total size : Nat) (page : Int) : Nat := (max 1 (min page (pageCount total size))).toNat

theorem readPage_le (total : Nat) (hsize : 0 < size) (page : Int) : readPage total size page ≤ pageCount total size := by
  have := pageCount_pos total hsize
  rw [readPage]
  omega

theorem readPage_pos (total size : Nat) (page : Int) : 0 < readPage total size page := by
  rw [readPage]
  omega

theorem offset_eq (hsize : 0 < size) (htotal : total < 2 ^ 63) (fits : Fits total size) (page : Int) :
    (⟨total, size⟩ : Paginator).offset page = .ok (((readPage total size page - 1) * size : Nat) : Int) := by
  have hpos := pageCount_pos total hsize
  have hread : max 1 (min page (pageCount total size)) = (readPage total size page : Int) := by
    rw [readPage]
    omega
  have hone := readPage_pos total size page
  have hle := readPage_le total hsize page
  have hstart : (readPage total size page - 1) * size < max 1 total := mul_lt_of_lt_pageCount hsize (by omega)
  have hbefore : i64 ((readPage total size page : Int) - 1) = .ok ((readPage total size page - 1 : Nat) : Int) := by
    have := Nat.le_mul_of_pos_right (readPage total size page - 1) hsize
    have hcast : (readPage total size page : Int) - 1 = ((readPage total size page - 1 : Nat) : Int) := by omega
    rw [hcast]
    exact i64_eq (by omega) (by omega)
  have hproduct : i64 (((readPage total size page - 1 : Nat) : Int) * size) =
      .ok (((readPage total size page - 1) * size : Nat) : Int) := by
    rw [← Int.natCast_mul]
    exact i64_eq (by omega) (by omega)
  rw [Paginator.offset, totalPages_eq hsize fits]
  refine Except.bind_eq_ok.mpr ⟨_, rfl, Except.bind_eq_ok.mpr ⟨_, ?_, hproduct⟩⟩
  rw [hread]
  exact hbefore

end Paginator

/-! ### Answers -/

section Answers
variable [Fmt] [Wire] {m : Model}

/-- The query set of a request, filters of the configuration and the backends applied. -/
def ViewSet.prepare (options : ViewSetOptions m) (params : QueryParams) : Except DjangorsError (Ordered m.info) := do
  let qs ← filterFields options.config params {}
  let qs ← options.filterBackends.foldlM (fun qs backend => backend.filterQueryset params qs) qs
  orderFields options.config params qs

omit [Fmt] in
theorem windowless_prepare {options : ViewSetOptions m} {params : QueryParams} {ordered : Ordered m.info}
    (h : ViewSet.prepare options params = .ok ordered) : Windowless ordered.qs := by
  obtain ⟨qs, hqs, h⟩ := Except.bind_eq_ok.mp h
  obtain ⟨narrowed, hnarrowed, h⟩ := Except.bind_eq_ok.mp h
  have hstart := Except.foldlM_induct hqs windowless_new fun _ _ _ _ h heq => h.applyFilter heq
  have hbackends := Except.foldlM_induct hnarrowed hstart fun backend _ qs qs' hplain heq => by
    obtain ⟨filters, orderBy, rfl⟩ := backend.narrows params qs qs' heq
    exact ⟨hplain.limit, hplain.offset, hplain.search⟩
  exact windowless_orderFields hbackends h

variable (S : Server) (db : Tables Cell) (ordered : Ordered m.info)

/-- The rows that the request asks for. -/
def matching : List (Row Cell) := (db m.info.tableName).filter (ordered.qs.keeps S db)

/-- The ordering that the request emits. -/
def ordering : List (String × Bool) := ordered.qs.orderSource true

variable {S db ordered} {fromRow : Row Cell → Except OrmError m.Instance} {read : Row Cell → m.Instance}
  {options : ViewSetOptions m} {params : QueryParams}

omit [Wire] in
theorem all_window (plain : Windowless ordered.qs) (reads : ∀ r ∈ db m.info.tableName, fromRow r = .ok (read r))
    (limit offset : Nat) :
    all S db (instances m fromRow) ((ordered.qs.withLimit limit).withOffset offset) =
      .ok (((S.arrange (ordering ordered) (matching S db ordered)).drop offset |>.take limit).map read) := by
  have hsearch : ((ordered.qs.withLimit limit).withOffset offset).searchCondition = none := plain.search
  have hrows : S.fetch db (((ordered.qs.withLimit limit).withOffset offset).select S.dialect) =
      .ok ((S.arrange (ordering ordered) (matching S db ordered)).drop offset |>.take limit) := by
    rw [fetch_eq hsearch]
    change S.limited (some (limit : Int)) ((S.arrange (ordering ordered) (matching S db ordered)).drop ((offset : Int)).toNat) = _
    rw [Server.limited, if_pos (Int.natCast_nonneg _), Int.toNat_natCast, Int.toNat_natCast]
  refine Except.bind_eq_ok.mpr ⟨_, hrows, Except.mapM_eq_ok.mpr ?_⟩
  rw [List.forall₂_map_right_iff]
  refine List.forall₂_same.mpr fun r hr => reads r ?_
  have hmem := (S.arrange_perm _ _).mem_iff.mp (List.mem_of_mem_drop (List.mem_of_mem_take hr))
  exact (List.mem_filter.mp hmem).1

theorem listWithOptions_eq (noCursor : options.config.cursorPagination = false)
    (prepared : ViewSet.prepare options params = .ok ordered) :
    ViewSet.listWithOptions S db fromRow options params = (do
      let slice ← options.pagination.slice params (matching S db ordered).length
      let items ← orFailure (internal
        (all S db (instances m fromRow) ((ordered.qs.withLimit slice.limit).withOffset slice.offset)))
      options.pagination.envelope params (matching S db ordered).length (items.map options.serializer.toRepresentation)) := by
  have plain := windowless_prepare prepared
  have hcount : count S db ordered.qs = .ok (matching S db ordered).length := by
    rw [count_eq S db plain.search, List.countP_eq_length_filter]
    rfl
  have hprepare : ViewSet.listWithOptions S db fromRow options params = (do
      let ordered ← orFailure (ViewSet.prepare options params)
      let total ← orFailure (internal (count S db ordered.qs))
      if options.config.cursorPagination then
        listByCursor S db fromRow options.serializer.toRepresentation params (options.pagination.pageSize params) total ordered
      else
        let slice ← options.pagination.slice params total
        let items ← orFailure (internal
          (all S db (instances m fromRow) ((ordered.qs.withLimit slice.limit).withOffset slice.offset)))
        options.pagination.envelope params total (items.map options.serializer.toRepresentation)) := by
    rw [ViewSet.prepare, orFailure_bind, bind_assoc]
    simp only [orFailure_bind, bind_assoc]
    rfl
  rw [hprepare, prepared]
  change (orFailure (internal (count S db ordered.qs)) >>= _) = _
  rw [hcount]
  change (if options.config.cursorPagination = true then _ else _) = _
  rw [if_neg (by simp [noCursor])]

/-! ### Pages by number -/

section Numbers
variable {defaultSize : Int} {ceiling : Option Int} {size : Nat}

/-- What a row looks like in an answer. -/
def shown (options : ViewSetOptions m) (read : Row Cell → m.Instance) (r : Row Cell) : Json F64 :=
  options.serializer.toRepresentation (read r)

theorem pageNumber_ok (noCursor : options.config.cursorPagination = false)
    (prepared : ViewSet.prepare options params = .ok ordered) (reads : ∀ r ∈ db m.info.tableName, fromRow r = .ok (read r))
    (count : (matching S db ordered).length < 2 ^ 63) (strategy : options.pagination = .pageNumber defaultSize ceiling)
    (hsize : resolveSize params defaultSize ceiling = size) (hpos : 0 < size) (fits : Fits (matching S db ordered).length size) :
    ViewSet.listWithOptions S db fromRow options params = .ok (.page (matching S db ordered).length (requestedPage params)
      (pageCount (matching S db ordered).length size)
      ((Windows.window size (readPage (matching S db ordered).length size (requestedPage params) - 1)
        (S.arrange (ordering ordered) (matching S db ordered))).map (shown options read))) := by
  rw [listWithOptions_eq noCursor prepared, strategy]
  have hslice : Pagination.slice params (matching S db ordered).length (.pageNumber defaultSize ceiling) =
      .ok ⟨size, ((readPage (matching S db ordered).length size (requestedPage params) - 1) * size : Nat)⟩ := by
    rw [Pagination.slice, hsize]
    exact Except.bind_eq_ok.mpr ⟨_, new_eq hpos, Except.bind_eq_ok.mpr ⟨_, offset_eq hpos count fits _, rfl⟩⟩
  refine Except.bind_eq_ok.mpr ⟨_, hslice, Except.bind_eq_ok.mpr ⟨_, orFailure_eq_ok.mpr (internal_eq_ok.mpr
    (all_window (windowless_prepare prepared) reads size _)), ?_⟩⟩
  rw [Pagination.envelope, hsize]
  refine Except.bind_eq_ok.mpr ⟨_, new_eq hpos, Except.bind_eq_ok.mpr ⟨_, totalPages_eq hpos fits, ?_⟩⟩
  rw [List.map_map]
  rfl

theorem pageNumber_overflows (fromRow : Row Cell → Except OrmError m.Instance) (noCursor : options.config.cursorPagination = false)
    (prepared : ViewSet.prepare options params = .ok ordered)
    (strategy : options.pagination = .pageNumber defaultSize ceiling)
    (hsize : resolveSize params defaultSize ceiling = size) (hpos : 0 < size) (h : ¬Fits (matching S db ordered).length size) :
    ViewSet.listWithOptions S db fromRow options params = .error .overflow := by
  rw [listWithOptions_eq noCursor prepared, strategy, Pagination.slice, hsize, new_eq hpos]
  change ((⟨(matching S db ordered).length, size⟩ : Paginator).offset _ >>= _) >>= _ = _
  rw [Paginator.offset, totalPages_overflows h]
  rfl

end Numbers

end Answers

/-! ### Rows that are shown -/

section Shown
variable [Wire] {m : Model} {read : Row Cell → m.Instance} {options : ViewSetOptions m}

/-- Windows of rows that look alike only if they are the same: the windows are the rows if they look like them. -/
theorem perm_of_shown {rows l : List (Row Cell)} (distinct : (rows.map (shown options read)).Nodup) (mem : ∀ r ∈ l, r ∈ rows)
    (h : (l.map (shown options read)).Perm (rows.map (shown options read))) : l.Perm rows := by
  have hnodup : l.Nodup := (h.nodup_iff.mpr distinct).of_map _
  have hlength : rows.length ≤ l.length := by simpa using h.length_eq.ge
  exact (hnodup.subperm mem).perm_of_length_le hlength

/-- The windows of the rows that are shown are the windows shown. -/
theorem flatMap_map_window {n size : Nat} {arrangement : Nat → List (Row Cell)} :
    ((List.range n).flatMap fun k => (Windows.window size k (arrangement k)).map (shown options read)) =
      ((List.range n).flatMap fun k => Windows.window size k (arrangement k)).map (shown options read) := by
  rw [List.map_flatMap]

end Shown

/-! ### Sizes and numbers that a client asks for -/

section Asked
variable (params : QueryParams)

/-- The size that a client asks for. -/
def requestedSize (name : String) : Option Int := ((params name).bind parseI64).filter (1 ≤ ·)

/-- The request for page `k + 1`. -/
def atPage (k : Nat) : QueryParams := Function.update params "page" (some (toString ((k : Int) + 1)))

/-- The request for the rows from `offset` on. -/
def atOffset (offset : Nat) : QueryParams := Function.update params "offset" (some (toString (offset : Int)))

variable {params}

theorem one_le_requestedSize {name : String} {n : Int} (h : requestedSize params name = some n) : 1 ≤ n := by
  have := Option.filter_eq_some_iff.mp h
  simpa using this.2

theorem resolveSize_within {defaultSize : Int} {ceiling : Option Int} :
    (1 ≤ resolveSize params defaultSize ceiling ∧ ∀ bound, ceiling = some bound →
      resolveSize params defaultSize ceiling ≤ bound) ↔
    ∀ bound, ceiling = some bound → 1 ≤ bound ∧ (requestedSize params "page_size" = none → defaultSize ≤ bound) := by
  cases ceiling with
  | none => simp [resolveSize]
  | some bound =>
    simp only [resolveSize, Option.some.injEq, forall_eq']
    rw [← requestedSize]
    cases hsize : requestedSize params "page_size" with
    | none =>
      simp only [Option.map_none, Option.getD_none, forall_const]
      omega
    | some n =>
      have hn := one_le_requestedSize hsize
      simp only [Option.map_some, Option.getD_some, reduceCtorEq, false_implies, and_true]
      omega

theorem requestedPage_atPage {k : Nat} (h : k + 1 < 2 ^ 63) : requestedPage (atPage params k) = k + 1 := by
  have hparse : parseI64 (toString ((k : Int) + 1)) = some ((k : Int) + 1) :=
    Text.parseSigned_toString (by omega) (by omega)
  rw [requestedPage, atPage, Function.update_self, Option.bind_some, hparse, Option.getD_some]
  omega

theorem resolveSize_atPage (k : Nat) (defaultSize : Int) (ceiling : Option Int) :
    resolveSize (atPage params k) defaultSize ceiling = resolveSize params defaultSize ceiling := by
  have hother : atPage params k "page_size" = params "page_size" := Function.update_of_ne (by decide) _ _
  cases ceiling with
  | none => rfl
  | some bound => simp only [resolveSize, hother]

variable {defaultLimit maxLimit : Int}

theorem limit_eq : (resolved params defaultLimit maxLimit).limit =
    ((requestedSize params "limit").map (min · (max maxLimit 1))).getD (max defaultLimit 1) := rfl

theorem limit_pos : 1 ≤ (resolved params defaultLimit maxLimit).limit := by
  rw [limit_eq]
  cases hsize : requestedSize params "limit" with
  | none => exact le_max_right ..
  | some n =>
    have := one_le_requestedSize hsize
    simp only [Option.map_some, Option.getD_some]
    omega

theorem limit_within : (1 ≤ (resolved params defaultLimit maxLimit).limit ∧
      (resolved params defaultLimit maxLimit).limit ≤ maxLimit) ↔
    1 ≤ maxLimit ∧ (requestedSize params "limit" = none → defaultLimit ≤ maxLimit) := by
  rw [limit_eq]
  cases hsize : requestedSize params "limit" with
  | none =>
    simp only [Option.map_none, Option.getD_none, forall_const]
    omega
  | some n =>
    have := one_le_requestedSize hsize
    simp only [Option.map_some, Option.getD_some, reduceCtorEq, false_implies, and_true]
    omega

theorem offset_nonneg : 0 ≤ (resolved params defaultLimit maxLimit).offset := by
  have hoffset : (resolved params defaultLimit maxLimit).offset =
      (((params "offset").bind parseI64).filter (0 ≤ ·)).getD 0 := rfl
  rw [hoffset]
  cases hparam : ((params "offset").bind parseI64).filter (0 ≤ ·) with
  | none => exact Int.le_refl 0
  | some n =>
    have := Option.filter_eq_some_iff.mp hparam
    simpa using this.2

theorem resolved_atOffset {offset : Nat} (h : offset < 2 ^ 63) :
    resolved (atOffset params offset) defaultLimit maxLimit =
      ⟨(resolved params defaultLimit maxLimit).limit, offset⟩ := by
  have hparse : parseI64 (toString (offset : Int)) = some (offset : Int) := Text.parseSigned_toString (by omega) (by omega)
  have hother : atOffset params offset "limit" = params "limit" := Function.update_of_ne (by decide) _ _
  have hkept : Option.filter (fun n : Int => decide (0 ≤ n)) (some (offset : Int)) = some (offset : Int) :=
    Option.filter_some_pos (by simp)
  have hself : atOffset params offset "offset" = some (toString (offset : Int)) := Function.update_self ..
  simp only [resolved, hother, hself, Option.bind_some, hparse, hkept, Option.getD_some]

end Asked

/-! ### What the strategies promise -/

section Promises
variable [Fmt] [Wire] {m : Model} {κ : Type} [LinearOrder κ] (rank : List (String × Bool) → Row Cell → κ)
  (S : Server) (db : Tables Cell) (fromRow : Row Cell → Except OrmError m.Instance) (read : Row Cell → m.Instance)
  (options : ViewSetOptions m) (params : QueryParams) (ordered : Ordered m.info)

/-- A list without cursors over rows that can be read and counted. Its requests filter and order in one way, whatever
    the parameter `name` is. -/
structure Steady (name : String) : Prop where
  noCursor : options.config.cursorPagination = false
  prepared : ∀ raw, ViewSet.prepare options (Function.update params name raw) = .ok ordered
  reads : ∀ r ∈ db m.info.tableName, fromRow r = .ok (read r)
  count : (matching S db ordered).length < 2 ^ 63

/-- Pages by number: their size is within the ceiling, the pages are the rows, each once, and the page that is
    reported is the one that is shown. -/
structure PagesSound (size : Int) (ceiling : Option Int) : Prop where
  within : 1 ≤ size ∧ ∀ bound, ceiling = some bound → size ≤ bound
  visits : ∀ ties : Nat → Ties rank, ∃ page : Nat → List (Json F64),
    (∀ k < pageCount (matching S db ordered).length size.toNat,
      ViewSet.listWithOptions ((ties k).server S) db fromRow options (atPage params k) =
        .ok (.page (matching S db ordered).length (k + 1) (pageCount (matching S db ordered).length size.toNat) (page k)) ∧
      ((page k).length : Int) ≤ size) ∧
    ((List.range (pageCount (matching S db ordered).length size.toNat)).flatMap page).Perm
      ((matching S db ordered).map (shown options read))
  reported : ∀ ties : Ties rank, ∃ page pages results,
    ViewSet.listWithOptions (ties.server S) db fromRow options params =
      .ok (.page (matching S db ordered).length page pages results) ∧
    (results.length : Int) ≤ size ∧ 1 ≤ page ∧ page ≤ pages ∧
    results = (Windows.window size.toNat (page - 1).toNat
      (ties.arrange (ordering ordered) (matching S db ordered))).map (shown options read)

/-- The ceiling is positive and not below a default that is used, the sum of the count and the size is an `i64`, there
    is the page that is asked for, and no two rows that tie are on two pages. -/
structure PagesFit (defaultSize size : Int) (ceiling : Option Int) : Prop where
  within : ∀ bound, ceiling = some bound → 1 ≤ bound ∧ (requestedSize params "page_size" = none → defaultSize ≤ bound)
  fits : Fits (matching S db ordered).length size.toNat
  page : requestedPage params ≤ pageCount (matching S db ordered).length size.toNat
  apart : Windows.Apart (rank (ordering ordered)) (matching S db ordered) size.toNat

variable {rank S db fromRow read options params ordered} {defaultSize : Int} {ceiling : Option Int}

theorem Steady.self {name : String} (h : Steady S db fromRow read options params ordered name) :
    ViewSet.prepare options params = .ok ordered := by
  have := h.prepared (params name)
  rwa [Function.update_eq_self] at this

/-- The answer to the request for a page that there is. -/
theorem atPage_ok (h : Steady S db fromRow read options params ordered "page")
    (strategy : options.pagination = .pageNumber defaultSize ceiling) {size : Nat}
    (hsize : resolveSize params defaultSize ceiling = size) (hpos : 0 < size)
    (fits : Fits (matching S db ordered).length size) (ties : Ties rank) {k : Nat}
    (hk : k < pageCount (matching S db ordered).length size) :
    ViewSet.listWithOptions (ties.server S) db fromRow options (atPage params k) =
      .ok (.page (matching S db ordered).length (k + 1) (pageCount (matching S db ordered).length size)
        ((Windows.window size k (ties.arrange (ordering ordered) (matching S db ordered))).map (shown options read))) := by
  have hbound : k + 1 < 2 ^ 63 := by
    have := mul_lt_of_lt_pageCount hpos hk
    have := Nat.le_mul_of_pos_right k hpos
    have := h.count
    omega
  have hnumber : readPage (matching S db ordered).length size ((k : Int) + 1) = k + 1 := by
    rw [readPage]
    omega
  have hprepared : ViewSet.prepare options (atPage params k) = .ok ordered := h.prepared _
  have hanswer := pageNumber_ok (S := ties.server S) h.noCursor hprepared h.reads h.count strategy
    ((resolveSize_atPage k defaultSize ceiling).trans hsize) hpos fits
  have hmatching : matching (ties.server S) db ordered = matching S db ordered := rfl
  rw [requestedPage_atPage hbound, hmatching, hnumber] at hanswer
  exact hanswer

theorem pagesSound_of_fit (h : Steady S db fromRow read options params ordered "page")
    (strategy : options.pagination = .pageNumber defaultSize ceiling)
    (fit : PagesFit rank S db params ordered defaultSize (resolveSize params defaultSize ceiling) ceiling) :
    PagesSound rank S db fromRow read options params ordered (resolveSize params defaultSize ceiling) ceiling := by
  have hwithin := resolveSize_within.mpr fit.within
  obtain ⟨size, hsize⟩ : ∃ size : Nat, resolveSize params defaultSize ceiling = size :=
    ⟨_, (Int.toNat_of_nonneg (by omega)).symm⟩
  have hpos : 0 < size := by omega
  obtain ⟨-, hfits, hpage, hapart⟩ := fit
  rw [hsize] at hwithin hfits hpage hapart ⊢
  rw [Int.toNat_natCast] at hfits hpage hapart
  have hle (k : Nat) (l : List (Row Cell)) : (((Windows.window size k l).map (shown options read)).length : Int) ≤ size := by
    rw [List.length_map]
    exact_mod_cast Windows.length_window_le size k l
  refine ⟨hwithin, fun ties => ?_, fun ties => ?_⟩ <;> rw [Int.toNat_natCast]
  · refine ⟨fun k => (Windows.window size k ((ties k).arrange (ordering ordered) (matching S db ordered))).map
      (shown options read), fun k hk => ⟨atPage_ok h strategy hsize hpos hfits (ties k) hk, hle ..⟩, ?_⟩
    rw [flatMap_map_window]
    exact (Windows.windows_perm hapart hpos (fun k => (ties k).arranged _ _) (le_pageCount hpos)).map _
  · have hanswer := pageNumber_ok (S := ties.server S) h.noCursor h.self h.reads h.count strategy hsize hpos hfits
    have hone : 1 ≤ requestedPage params := le_max_right ..
    have hnumber : readPage (matching S db ordered).length size (requestedPage params) - 1 = (requestedPage params - 1).toNat := by
      rw [readPage]
      omega
    refine ⟨_, _, _, hanswer, hle .., hone, hpage, ?_⟩
    rw [← hnumber]
    rfl

theorem pagesFit_of_sound (h : Steady S db fromRow read options params ordered "page")
    (strategy : options.pagination = .pageNumber defaultSize ceiling)
    (distinct : ((matching S db ordered).map (shown options read)).Nodup)
    (sound : PagesSound rank S db fromRow read options params ordered (resolveSize params defaultSize ceiling) ceiling) :
    PagesFit rank S db params ordered defaultSize (resolveSize params defaultSize ceiling) ceiling := by
  obtain ⟨hwithin, hvisits, hreported⟩ := sound
  obtain ⟨size, hsize⟩ : ∃ size : Nat, resolveSize params defaultSize ceiling = size :=
    ⟨_, (Int.toNat_of_nonneg (by omega)).symm⟩
  have hpos : 0 < size := by omega
  rw [hsize, Int.toNat_natCast] at hvisits hreported
  -- The answer to the request itself shows that nothing overflows and that there is the page.
  obtain ⟨ties⟩ : Nonempty (Ties rank) := ⟨Ties.of (Windows.arranged_mergeSort (rank (ordering ordered)) [])⟩
  obtain ⟨page, pages, results, hanswer, -, -, hpage, -⟩ := hreported ties
  have hfits : Fits (matching S db ordered).length size := by
    by_contra hfits
    have hoverflow := pageNumber_overflows (S := ties.server S) fromRow h.noCursor h.self strategy hsize hpos hfits
    cases hanswer.symm.trans hoverflow
  refine ⟨resolveSize_within.mp hwithin, ?_, ?_, ?_⟩ <;> rw [hsize, Int.toNat_natCast]
  · exact hfits
  · have hok := pageNumber_ok (S := ties.server S) h.noCursor h.self h.reads h.count strategy hsize hpos hfits
    cases hanswer.symm.trans hok
    exact hpage
  · -- Any arrangements of the rows are those of some server.
    refine Windows.apart_of_windows (distinct.of_map _) hpos (le_pageCount hpos) fun arrangement harranged => ?_
    obtain ⟨page, hpages, hperm⟩ := hvisits fun k => Ties.of (harranged k)
    have hpage : ∀ k ∈ List.range (pageCount (matching S db ordered).length size),
        page k = (Windows.window size k (arrangement k)).map (shown options read) := by
      intro k hk
      have hanswer := (hpages k (List.mem_range.mp hk)).1
      rw [atPage_ok h strategy hsize hpos hfits _ (List.mem_range.mp hk), Ties.of_arrange] at hanswer
      exact (Envelope.page.inj (Except.ok.inj hanswer)).2.2.2.symm
    rw [List.flatMap_congr hpage, flatMap_map_window] at hperm
    refine perm_of_shown distinct (fun r hr => ?_) hperm
    obtain ⟨k, -, hr⟩ := List.mem_flatMap.mp hr
    exact (harranged k).perm.subset (List.mem_of_mem_drop (List.mem_of_mem_take hr))

/-! ### Windows by offset -/

variable (rank S db fromRow read options params ordered) in
/-- Windows by offset: their size is within the bound, the windows are the rows, each once, and the window that is
    reported is the one that is shown. -/
structure WindowsSound (size bound : Int) : Prop where
  within : 1 ≤ size ∧ size ≤ bound
  visits : ∀ ties : Nat → Ties rank, ∃ results : Nat → List (Json F64),
    (∀ k, k * size.toNat < (matching S db ordered).length →
      ViewSet.listWithOptions ((ties k).server S) db fromRow options (atOffset params (k * size.toNat)) =
        .ok (.window (matching S db ordered).length size (k * size.toNat : Nat) (results k)) ∧
      ((results k).length : Int) ≤ size) ∧
    ((List.range (((matching S db ordered).length + size.toNat - 1) / size.toNat)).flatMap results).Perm
      ((matching S db ordered).map (shown options read))
  reported : ∀ ties : Ties rank, ∃ offset : Nat, ∃ results,
    ViewSet.listWithOptions (ties.server S) db fromRow options params =
      .ok (.window (matching S db ordered).length size offset results) ∧ (results.length : Int) ≤ size ∧
    results = (((ties.arrange (ordering ordered) (matching S db ordered)).drop offset).take size.toNat).map
      (shown options read)

variable (rank S db params ordered) in
/-- The bound is positive and not below a default that is used, and no two rows that tie are in two windows. -/
structure WindowsFit (defaultLimit size bound : Int) : Prop where
  within : 1 ≤ bound ∧ (requestedSize params "limit" = none → defaultLimit ≤ bound)
  apart : Windows.Apart (rank (ordering ordered)) (matching S db ordered) size.toNat

variable {defaultLimit maxLimit : Int}

theorem limitOffset_ok (noCursor : options.config.cursorPagination = false)
    (prepared : ViewSet.prepare options params = .ok ordered) (reads : ∀ r ∈ db m.info.tableName, fromRow r = .ok (read r))
    (strategy : options.pagination = .limitOffset defaultLimit maxLimit) {size offset : Nat}
    (hsize : (resolved params defaultLimit maxLimit).limit = size)
    (hoffset : (resolved params defaultLimit maxLimit).offset = offset) :
    ViewSet.listWithOptions S db fromRow options params = .ok (.window (matching S db ordered).length size offset
      ((((S.arrange (ordering ordered) (matching S db ordered)).drop offset).take size).map (shown options read))) := by
  rw [listWithOptions_eq noCursor prepared, strategy]
  refine Except.bind_eq_ok.mpr ⟨_, rfl, ?_⟩
  rw [hsize, hoffset]
  refine Except.bind_eq_ok.mpr ⟨_, orFailure_eq_ok.mpr (internal_eq_ok.mpr
    (all_window (windowless_prepare prepared) reads size offset)), ?_⟩
  simp only [Pagination.envelope, hsize, hoffset, List.map_map]
  rfl

/-- The answer to the request for a window. -/
theorem atOffset_ok (h : Steady S db fromRow read options params ordered "offset")
    (strategy : options.pagination = .limitOffset defaultLimit maxLimit) {size : Nat}
    (hsize : (resolved params defaultLimit maxLimit).limit = size) (ties : Ties rank) {k : Nat}
    (hk : k * size < (matching S db ordered).length) :
    ViewSet.listWithOptions (ties.server S) db fromRow options (atOffset params (k * size)) =
      .ok (.window (matching S db ordered).length size (k * size : Nat)
        ((Windows.window size k (ties.arrange (ordering ordered) (matching S db ordered))).map (shown options read))) := by
  have hprepared : ViewSet.prepare options (atOffset params (k * size)) = .ok ordered := h.prepared _
  have hresolved := @resolved_atOffset params defaultLimit maxLimit _ (hk.trans h.count)
  exact limitOffset_ok (S := ties.server S) h.noCursor hprepared h.reads strategy
    ((congrArg PageSlice.limit hresolved).trans hsize) (congrArg PageSlice.offset hresolved)

theorem windowsSound_of_fit (h : Steady S db fromRow read options params ordered "offset")
    (strategy : options.pagination = .limitOffset defaultLimit maxLimit)
    (fit : WindowsFit rank S db params ordered defaultLimit (resolved params defaultLimit maxLimit).limit maxLimit) :
    WindowsSound rank S db fromRow read options params ordered (resolved params defaultLimit maxLimit).limit maxLimit := by
  have hwithin := limit_within.mpr fit.within
  obtain ⟨size, hsize⟩ : ∃ size : Nat, (resolved params defaultLimit maxLimit).limit = size :=
    ⟨_, (Int.toNat_of_nonneg (by omega)).symm⟩
  obtain ⟨offset, hoffset⟩ : ∃ offset : Nat, (resolved params defaultLimit maxLimit).offset = offset :=
    ⟨_, (Int.toNat_of_nonneg offset_nonneg).symm⟩
  have hpos : 0 < size := by omega
  obtain ⟨-, hapart⟩ := fit
  rw [hsize] at hwithin hapart ⊢
  rw [Int.toNat_natCast] at hapart
  refine ⟨hwithin, fun ties => ?_, fun ties => ?_⟩ <;> rw [Int.toNat_natCast]
  · refine ⟨fun k => (Windows.window size k ((ties k).arrange (ordering ordered) (matching S db ordered))).map
      (shown options read), fun k hk => ⟨atOffset_ok h strategy hsize (ties k) hk, ?_⟩, ?_⟩
    · rw [List.length_map]
      exact_mod_cast Windows.length_window_le size k _
    · rw [flatMap_map_window]
      exact (Windows.windows_perm hapart hpos (fun k => (ties k).arranged _ _) (le_windowCount hpos)).map _
  · refine ⟨offset, _, limitOffset_ok (S := ties.server S) h.noCursor h.self h.reads strategy hsize hoffset, ?_, rfl⟩
    rw [List.length_map]
    exact_mod_cast List.length_take_le ..

theorem windowsFit_of_sound (h : Steady S db fromRow read options params ordered "offset")
    (strategy : options.pagination = .limitOffset defaultLimit maxLimit)
    (distinct : ((matching S db ordered).map (shown options read)).Nodup)
    (sound : WindowsSound rank S db fromRow read options params ordered (resolved params defaultLimit maxLimit).limit
      maxLimit) :
    WindowsFit rank S db params ordered defaultLimit (resolved params defaultLimit maxLimit).limit maxLimit := by
  obtain ⟨hwithin, hvisits, -⟩ := sound
  obtain ⟨size, hsize⟩ : ∃ size : Nat, (resolved params defaultLimit maxLimit).limit = size :=
    ⟨_, (Int.toNat_of_nonneg (by omega)).symm⟩
  have hpos : 0 < size := by omega
  rw [hsize, Int.toNat_natCast] at hvisits
  refine ⟨limit_within.mp hwithin, ?_⟩
  rw [hsize, Int.toNat_natCast]
  refine Windows.apart_of_windows (distinct.of_map _) hpos (le_windowCount hpos) fun arrangement harranged => ?_
  obtain ⟨results, hresults, hperm⟩ := hvisits fun k => Ties.of (harranged k)
  have hwindow : ∀ k ∈ List.range (((matching S db ordered).length + size - 1) / size),
      results k = (Windows.window size k (arrangement k)).map (shown options read) := by
    intro k hk
    have hk := mul_lt_of_lt_windowCount hpos (List.mem_range.mp hk)
    have hanswer := (hresults k hk).1
    rw [atOffset_ok h strategy hsize _ hk, Ties.of_arrange] at hanswer
    exact (Envelope.window.inj (Except.ok.inj hanswer)).2.2.2.symm
  rw [List.flatMap_congr hwindow, flatMap_map_window] at hperm
  refine perm_of_shown distinct (fun r hr => ?_) hperm
  obtain ⟨k, -, hr⟩ := List.mem_flatMap.mp hr
  exact (harranged k).perm.subset (List.mem_of_mem_drop (List.mem_of_mem_take hr))

/-- Pages by number and windows by offset visit each row once, in sizes within the configured bounds, and report what
    they show, under the stated conditions. These are necessary when the rows look different from each other. -/
theorem pages_sound (options : ViewSetOptions m) (params : QueryParams) :
    (∀ defaultSize ceiling, options.pagination = .pageNumber defaultSize ceiling →
      Steady S db fromRow read options params ordered "page" →
      (PagesFit rank S db params ordered defaultSize (resolveSize params defaultSize ceiling) ceiling →
        PagesSound rank S db fromRow read options params ordered (resolveSize params defaultSize ceiling) ceiling) ∧
      (((matching S db ordered).map (shown options read)).Nodup →
        PagesSound rank S db fromRow read options params ordered (resolveSize params defaultSize ceiling) ceiling →
        PagesFit rank S db params ordered defaultSize (resolveSize params defaultSize ceiling) ceiling)) ∧
    ∀ defaultLimit maxLimit, options.pagination = .limitOffset defaultLimit maxLimit →
      Steady S db fromRow read options params ordered "offset" →
      (WindowsFit rank S db params ordered defaultLimit (resolved params defaultLimit maxLimit).limit maxLimit →
        WindowsSound rank S db fromRow read options params ordered (resolved params defaultLimit maxLimit).limit
          maxLimit) ∧
      (((matching S db ordered).map (shown options read)).Nodup →
        WindowsSound rank S db fromRow read options params ordered (resolved params defaultLimit maxLimit).limit
          maxLimit →
        WindowsFit rank S db params ordered defaultLimit (resolved params defaultLimit maxLimit).limit maxLimit) :=
  ⟨fun _ _ strategy steady => ⟨pagesSound_of_fit steady strategy, pagesFit_of_sound steady strategy⟩,
    fun _ _ strategy steady => ⟨windowsSound_of_fit steady strategy, windowsFit_of_sound steady strategy⟩⟩

end Promises

/-! ### Two posts -/

section Posts

attribute [local instance] Wire.integers Fmt.decimal

/-- No ordering tells posts apart. -/
def noRank : List (String × Bool) → Row Cell → Nat := fun _ _ => 0

def post (id : Int) (title : String) : Row Cell := [("id", .i64 id), ("title", .text title)]

def readKnown (r : Row Cell) : Int × String :=
  match readPost r with
  | .ok known => known
  | .error _ => (0, "")

theorem twoPosts_steady (strategy : Pagination) {name : String} (hname : name ≠ "ordering") :
    Steady (m := postModel) plainServer twoPosts readPost readKnown { pagination := strategy } (fun _ => none) ⟨{}, none⟩
      name := by
  refine ⟨rfl, fun raw => ?_, fun r hr => ?_, by decide⟩
  · have hordering : Function.update (fun _ => none : QueryParams) name raw "ordering" = none :=
      Function.update_of_ne hname.symm _ _
    refine Except.bind_eq_ok.mpr ⟨{}, rfl, Except.bind_eq_ok.mpr ⟨{}, rfl, ?_⟩⟩
    rw [orderFields, hordering]
  · have hr : r = post 1 "rust" ∨ r = post 2 "lean" := by simpa [twoPosts, postModel, postMeta, post] using hr
    rcases hr with rfl | rfl <;> rfl

/-- Both posts fit on one page and in one window. -/
theorem twoPosts_sound :
    PagesSound (m := postModel) noRank plainServer twoPosts readPost readKnown {} (fun _ => none) ⟨{}, none⟩ restPerPage none ∧
    WindowsSound (m := postModel) noRank plainServer twoPosts readPost readKnown
      { pagination := .limitOffset 100 100 } (fun _ => none) ⟨{}, none⟩ 100 100 := by
  have hshort : Windows.Apart (noRank []) (matching (m := postModel) plainServer twoPosts ⟨{}, none⟩) 100 := by
    intro l h k a b _ hb
    have hlength : l.length = 2 := h.perm.length_eq
    have := (List.getElem?_eq_some_iff.mp hb).1
    omega
  refine ⟨((pages_sound {} fun _ => none).1 restPerPage none rfl (twoPosts_steady _ (by decide))).1
      ⟨fun _ h => (by cases h), .inr (by decide), by decide, hshort⟩,
    ((pages_sound { pagination := .limitOffset 100 100 } fun _ => none).2 100 100 rfl (twoPosts_steady _ (by decide))).1
      ⟨by decide, hshort⟩⟩

/-- The posts in their order, or the other way around. -/
def eitherWay (reversed : Bool) : Ties noRank where
  arrange _ rows := if reversed then rows.reverse else rows
  arranged order rows := by
    refine ⟨?_, List.pairwise_of_forall fun _ _ => Nat.le_refl 0⟩
    cases reversed
    · exact .refl _
    · exact List.reverse_perm _

def postJson (id : Int) (title : String) : Json F64 :=
  .object [("id".toList, .int id), ("title".toList, .string title.toList)]

/-- One post a page: the server may show the first post on both pages. Page 7 of a list of one page is reported, a
    client that asks for a size under a ceiling of 0 makes the endpoint panic, and the largest size overflows. -/
theorem first_post_twice :
    ¬PagesSound (m := postModel) noRank plainServer twoPosts readPost readKnown { pagination := .pageNumber 1 none }
      (fun _ => none) ⟨{}, none⟩ 1 none ∧
    ViewSet.listWithOptions (m := postModel) plainServer twoPosts readPost {} (Query.get ⟨id, some "page=7".toList⟩) =
      .ok (.page 2 7 1 [postJson 1 "rust", postJson 2 "lean"]) ∧
    ViewSet.listWithOptions (m := postModel) plainServer twoPosts readPost { pagination := .pageNumber 10 (some 0) }
      (Query.get ⟨id, some "page_size=5".toList⟩) = .error .panic ∧
    ViewSet.listWithOptions (m := postModel) plainServer twoPosts readPost
      { pagination := .pageNumber (2 ^ 63 - 1) none } (fun _ => none) = .error .overflow := by
  refine ⟨fun h => ?_, rfl, rfl, rfl⟩
  obtain ⟨page, hpages, hperm⟩ := h.visits fun k => eitherWay (k == 1)
  have hpage : ∀ {k : Nat} {results : List (Json F64)},
      ViewSet.listWithOptions (m := postModel) ((eitherWay (k == 1)).server plainServer) twoPosts readPost
        { pagination := .pageNumber 1 none } (atPage (fun _ => none) k) = .ok (.page 2 (k + 1) 2 results) →
      k < 2 → page k = results := fun hanswer hk =>
    (Envelope.page.inj (Except.ok.inj ((hpages _ hk).1.symm.trans hanswer))).2.2.2
  have hfirst : page 0 = [postJson 1 "rust"] := hpage rfl (by decide)
  have hagain : page 1 = [postJson 1 "rust"] := hpage rfl (by decide)
  have hcount : pageCount (matching (m := postModel) plainServer twoPosts ⟨{}, none⟩).length (Int.toNat 1) = 2 := by decide
  have hshown : (matching (m := postModel) plainServer twoPosts ⟨{}, none⟩).map
      (shown (m := postModel) { pagination := .pageNumber 1 none } readKnown) = [postJson 1 "rust", postJson 2 "lean"] := rfl
  have htwo : (List.range 2).flatMap page = page 0 ++ (page 1 ++ []) := rfl
  rw [hcount, hshown, htwo, hfirst, hagain] at hperm
  have hids := hperm.map fun json => (getEntry json "id").bind asI64
  revert hids
  decide

end Posts

end Djangors.Rest
