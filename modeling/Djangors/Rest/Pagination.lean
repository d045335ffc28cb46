import Djangors.Lib.Json
import Djangors.Rest.Cursor

/-! # Pagination

`Paginator` (`djangors-core/src/pagination.rs`) and the strategies of a list endpoint
(`djangors-rest/src/pagination.rs`). -/

namespace Djangors.Rest
open Http

/-- How a call ends other than by a result. An `i64` that overflows panics in a build with overflow checks and wraps in
    one without; here a call ends with it. -/
inductive Failure where
  | error (e : DjangorsError)
  | panic
  | overflow

def orFailure {α : Type} (result : Except DjangorsError α) : Except Failure α := result.mapError .error

theorem orFailure_eq_ok {α : Type} {result : Except DjangorsError α} {a : α} : orFailure result = .ok a ↔ result = .ok a := by
  cases result <;> simp [orFailure, Except.mapError]

/-- The result of an operation on `i64`s. -/
def i64 (n : Int) : Except Failure Int := if -2 ^ 63 ≤ n ∧ n < 2 ^ 63 then .ok n else .error .overflow

theorem i64_eq_ok {n k : Int} : i64 n = .ok k ↔ (-2 ^ 63 ≤ n ∧ n < 2 ^ 63) ∧ n = k := by
  rw [i64]
  by_cases h : -2 ^ 63 ≤ n ∧ n < 2 ^ 63
  · rw [if_pos h, Except.ok.injEq, and_iff_right h]
  · rw [if_neg h]
    exact ⟨fun herror => (by cases herror), fun hok => absurd hok.1 h⟩

/-- `raw.parse::<i64>().ok()` -/
def parseI64 (raw : String) : Option Int := Text.parseSigned (2 ^ 63) raw.toList

/-! ### Paginator -/

structure Paginator where
  totalItems : Int
  pageSize : Int

namespace Paginator

/-- `Paginator::new`, which asserts that the page size is positive. -/
def new (totalItems pageSize : Int) : Except Failure Paginator :=
  if 0 < pageSize then .ok ⟨max totalItems 0, pageSize⟩ else .error .panic

def totalPages (p : Paginator) : Except Failure Int :=
  if p.totalItems = 0 then .ok 1
  else do
    let sum ← i64 (p.totalItems + p.pageSize)
    let sum ← i64 (sum - 1)
    return sum / p.pageSize

/-- The offset of a page, of the nearest one that there is. -/
def offset (p : Paginator) (page : Int) : Except Failure Int := do
  let totalPages ← p.totalPages
  let clamped := max 1 (min page totalPages)
  let before ← i64 (clamped - 1)
  i64 (before * p.pageSize)

def hasPrevious (_ : Paginator) (page : Int) : Bool := 1 < page

def hasNext (p : Paginator) (page : Int) : Except Failure Bool := return (← i64 (page * p.pageSize)) < p.totalItems

end Paginator

/-! ### Parameters -/

/-- `REST_PER_PAGE` -/
def restPerPage : Int := 100

/-- `resolve_size` -/
def resolveSize (params : QueryParams) (default : Int) : Option Int → Int
  | none => max default 1
  | some ceiling =>
    let requested := ((params "page_size").bind parseI64).filter (1 ≤ ·)
    (requested.map (min · ceiling)).getD (max default 1)

/-- `requested_page` -/
def requestedPage (params : QueryParams) : Int := max (((params "page").bind parseI64).getD 1) 1

/-! ### Strategies -/

structure PageSlice where
  limit : Int
  offset : Int

/-- The body of a list response over rendered rows `ρ`. -/
inductive Envelope (ρ : Type) where
  | page (count page totalPages : Int) (results : List ρ)
  | window (count limit offset : Int) (results : List ρ)
  | cursor (count : Int) (results : List ρ) (nextCursor : Option String)

/-- `PageNumberPagination`, `LimitOffsetPagination` or `CursorPagination`. -/
inductive Pagination where
  | pageNumber (pageSize : Int) (maxPageSize : Option Int)
  | limitOffset (defaultLimit maxLimit : Int)
  | cursor (pageSize : Int) (maxPageSize : Option Int)

/-- `LimitOffsetPagination::resolved` -/
def resolved (params : QueryParams) (defaultLimit maxLimit : Int) : PageSlice where
  limit :=
    let requested := ((params "limit").bind parseI64).filter (1 ≤ ·)
    (requested.map (min · (max maxLimit 1))).getD (max defaultLimit 1)
  offset := (((params "offset").bind parseI64).filter (0 ≤ ·)).getD 0

namespace Pagination

/-- `page_size` -/
def pageSize (params : QueryParams) : Pagination → Int
  | pageNumber size ceiling => resolveSize params size ceiling
  | limitOffset default ceiling => (resolved params default ceiling).limit
  | cursor size ceiling => resolveSize params size ceiling

/-- `slice` -/
def slice (params : QueryParams) (total : Int) : Pagination → Except Failure PageSlice
  | pageNumber size ceiling => do
    let limit := resolveSize params size ceiling
    let paginator ← Paginator.new total limit
    let offset ← paginator.offset (requestedPage params)
    return ⟨limit, offset⟩
  | limitOffset default ceiling => .ok (resolved params default ceiling)
  | cursor size ceiling => .ok ⟨resolveSize params size ceiling, 0⟩

/-- `envelope` -/
def envelope {ρ : Type} (params : QueryParams) (total : Int) (results : List ρ) : Pagination → Except Failure (Envelope ρ)
  | pageNumber size ceiling => do
    let paginator ← Paginator.new total (resolveSize params size ceiling)
    let totalPages ← paginator.totalPages
    return .page total (requestedPage params) totalPages results
  | limitOffset default ceiling =>
    let slice := resolved params default ceiling
    .ok (.window total slice.limit slice.offset results)
  | cursor _ _ => .ok (.cursor total results none)

end Pagination
end Djangors.Rest
