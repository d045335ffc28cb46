import Djangors.Admin.ModelAdmin
import Djangors.Admin.Views
import Djangors.Lib.Calendar
import Djangors.Rest.Pagination

/-! # The changelist

The CSV export, the date hierarchy and the links of `djangors-admin/src/changelist.rs`.

## CSV export -/

namespace Djangors.Admin

/-- `s.replace('"', "\"\"")` -/
def doubleQuotes (s : String) : String :=
  String.ofList (s.toList.flatMap fun c => if c = '"' then ['"', '"'] else [c])

def csvEscapeField (s : String) : String :=
  if ',' ∈ s.toList ∨ '"' ∈ s.toList ∨ '\n' ∈ s.toList ∨ '\r' ∈ s.toList then "\"" ++ doubleQuotes s ++ "\"" else s

/-- A record with its line break. -/
def csvLine (fields : List String) : String := ",".intercalate (fields.map csvEscapeField) ++ "\r\n"

def rowsToCsv (columns : List String) (rows : List (List String)) : String :=
  csvLine columns ++ String.join (rows.map csvLine)

end Djangors.Admin

/-! ## The date hierarchy

The dates that chrono has, and the range behind a link of the date hierarchy (`djangors-admin/src/changelist.rs`). -/

namespace Djangors.Admin
open Db

/-- The nanoseconds of a day. -/
def dayNanos : Int := 86400000000000

/-- The day of an instant, counted from 1 January 1970. -/
def dayOf (t : DateTime) : Int := t.nanos / dayNanos

def midnightOf (n : Int) : DateTime := ⟨n * dayNanos⟩

/-- The years of a `NaiveDate`. -/
def firstYear : Int := -262143
def lastYear : Int := 262142

/-- The dates that chrono has. -/
def HasDate (year : Int) (month day : Nat) : Prop := (firstYear ≤ year ∧ year ≤ lastYear) ∧ Calendar.Valid year month day

instance (year : Int) (month day : Nat) : Decidable (HasDate year month day) := inferInstanceAs (Decidable (_ ∧ _))

/-- The dates of chrono in UTC. -/
@[reducible] def Calendar.chrono : Calendar where
  midnight year month day :=
    if HasDate year month day then some (midnightOf (Calendar.daysOf year month day)) else none
  dayLater t :=
    if t.nanos + dayNanos < (midnightOf (Calendar.daysOf (lastYear + 1) 1 1)).nanos then some ⟨t.nanos + dayNanos⟩ else none

/-- An instant is in a half-open range. -/
def Spans (range : DateTime × DateTime) (t : DateTime) : Prop := range.1.nanos ≤ t.nanos ∧ t.nanos < range.2.nanos

section Links
attribute [local instance] Calendar.chrono

/-- The range of the state that the link of a value leads to, one level below a year and a month. -/
def linkRange (year : Option Int) (month : Option Nat) (value : Int) : Except Fault (DateTime × DateTime) :=
  match year, month with
  | none, _ => dateRange value none none
  | some y, none => dateRange y (some value.toNat) none
  | some y, some m => dateRange y (some m) (some value.toNat)

end Links

end Djangors.Admin

/-! ## The links of a changelist

`build_query_string` and the links that `admin_changelist` puts on its page (`djangors-admin/src/changelist.rs`). -/

namespace Djangors.Admin
open Db Rest

/-- `NON_ALPHANUMERIC` -/
def nonAlphanumeric (c : Char) : Bool := !c.isAlphanum

def urlEncodeQueryValue (s : String) : List Char := s.toList.flatMap (Path.escape nonAlphanumeric)

/-- The parameters of a link in their order. One without a value is left out. -/
abbrev Pairs := List (String × Option String)

def Pairs.parts (pairs : Pairs) : List (List Char) :=
  pairs.filterMap fun (k, v) => v.map fun val => k.toList ++ '=' :: urlEncodeQueryValue val

def buildQueryString (pairs : Pairs) : List Char :=
  if pairs.parts.isEmpty then [] else '?' :: ['&'].intercalate pairs.parts

/-- `get_month_name` -/
def getMonthName : Nat → String
  | 1 => "January"
  | 2 => "February"
  | 3 => "March"
  | 4 => "April"
  | 5 => "May"
  | 6 => "June"
  | 7 => "July"
  | 8 => "August"
  | 9 => "September"
  | 10 => "October"
  | 11 => "November"
  | 12 => "December"
  | _ => "Unknown"

/-- `PagerData` -/
structure Pager where
  prevHref : Option (List Char)
  page : Int
  totalPages : Int
  total : Int
  nextHref : Option (List Char)

/-- `FilterBlockData` -/
structure FilterBlock where
  field : String
  allHref : List Char
  yesHref : List Char
  noHref : List Char

/-- `HeaderCellData`, `DateHierarchyLinkData` -/
structure Link where
  href : List Char
  label : String

structure ChangelistLinks where
  headerCells : List Link
  pager : Pager
  listFilterBlocks : List FilterBlock
  breadcrumbs : List Link
  dateLinks : List Link
  exportQuery : List Char

namespace ChangelistQueryState
variable (state : ChangelistQueryState)

def flag (val : Bool) : String := if val then "true" else "false"

def filterPairs (filters : List (String × Bool)) : Pairs := filters.map fun (f, val) => (f, some (flag val))

def yearPair : String × Option String := ("year", state.year.map toString)
def monthPair : String × Option String := ("month", state.month.map toString)
def dayPair : String × Option String := ("day", state.day.map toString)

/-- A header orders by its column, and in descending order when it is ordered by it. -/
def headerCell (col : String) : Link where
  href := buildQueryString ([("o", some (if state.order = some col then "-" ++ col else col)), ("q", state.search)] ++
    filterPairs state.filters ++ [state.yearPair, state.monthPair, state.dayPair])
  label := col

def pageHref (page : Int) : List Char :=
  buildQueryString ([("page", some (toString page)), ("o", state.order), ("q", state.search)] ++ filterPairs state.filters ++
    [state.yearPair, state.monthPair, state.dayPair])

def pagerOf (page total : Int) : Except Rest.Failure Pager := do
  let paginator ← Paginator.new total changelistPerPage
  let totalPages ← paginator.totalPages
  let prevHref ← if paginator.hasPrevious page then (i64 (page - 1)).map (some ∘ state.pageHref) else .ok none
  let nextHref ← if ← paginator.hasNext page then (i64 (page + 1)).map (some ∘ state.pageHref) else .ok none
  return { prevHref, page, totalPages, total, nextHref }

def filterBlock (field : String) : FilterBlock :=
  let others := filterPairs (state.filters.filter (·.1 ≠ field)) ++ [state.yearPair, state.monthPair, state.dayPair]
  { field
    allHref := buildQueryString ([("o", state.order), ("q", state.search)] ++ others)
    yesHref := buildQueryString ([("o", state.order), ("q", state.search), (field, some "true")] ++ others)
    noHref := buildQueryString ([("o", state.order), ("q", state.search), (field, some "false")] ++ others) }

def allLink : List Char := buildQueryString ([("o", state.order), ("q", state.search)] ++ filterPairs state.filters)

def yearLink : List Char :=
  buildQueryString ([("o", state.order), ("q", state.search), state.yearPair] ++ filterPairs state.filters)

def monthLink : List Char :=
  buildQueryString ([("o", state.order), ("q", state.search), state.yearPair, state.monthPair] ++ filterPairs state.filters)

/-- The links up from the date of a state. The label of each is that of the level it leaves. -/
def breadcrumbs : List Link :=
  match state.year, state.month, state.day with
  | some y, some m, some d => [⟨state.allLink, toString y⟩, ⟨state.yearLink, getMonthName m⟩, ⟨state.monthLink, toString d⟩]
  | some y, some m, none => [⟨state.allLink, toString y⟩, ⟨state.yearLink, getMonthName m⟩]
  | some y, none, _ => [⟨state.allLink, toString y⟩]
  | none, _, _ => []

/-- The link of a value one level below the date of a state. -/
def dateLink (value : Int) : Link :=
  let pairs : Pairs := [("o", state.order), ("q", state.search)] ++ filterPairs state.filters
  match state.year, state.month with
  | none, _ => ⟨buildQueryString (pairs ++ [("year", some (toString value))]), toString value⟩
  | some _, none =>
    ⟨buildQueryString (pairs ++ [state.yearPair, ("month", some (toString value))]), getMonthName (value % 2 ^ 32).toNat⟩
  | some _, some _ =>
    ⟨buildQueryString (pairs ++ [state.yearPair, state.monthPair, ("day", some (toString value))]), toString value⟩

def exportQuery : List Char :=
  buildQueryString ([("o", state.order), ("q", state.search)] ++ filterPairs state.filters ++
    [state.yearPair, state.monthPair, state.dayPair])

end ChangelistQueryState

/-- The links on a page of the changelist, with what the database gives for it: the columns, how many rows there are and
    the values of the date hierarchy. -/
def changelistLinks (admin : ModelAdmin) (state : ChangelistQueryState) (page : Int) (columns : List String) (total : Int)
    (values : List Int) : Except Rest.Failure ChangelistLinks := do
  let pager ← state.pagerOf page total
  return {
    headerCells := columns.map state.headerCell
    pager
    listFilterBlocks := (admin.config.listFilter.getD []).map state.filterBlock
    breadcrumbs := if admin.config.dateHierarchy.isSome then state.breadcrumbs else []
    dateLinks := if admin.config.dateHierarchy.isSome ∧ state.day = none then values.map state.dateLink else []
    exportQuery := state.exportQuery }

/-- `(page - 1) * per_page`, where `ModelAdmin.changelist` wraps. -/
def changelistOffset (page : Int) : Except Rest.Failure Int := do
  let before ← i64 (page - 1)
  i64 (before * changelistPerPage)

end Djangors.Admin
