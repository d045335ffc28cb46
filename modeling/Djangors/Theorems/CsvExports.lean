import Djangors.Admin.Changelist
import Djangors.Lib.Csv
import Djangors.Theorems.BaseFilter
import Djangors.Theorems.PageVisits
import Djangors.Theorems.Terminals

/-! # CSV exports

The text of an export is read back as its columns and rows, and its rows are those of all pages of the changelist. -/

namespace Djangors.Admin
open Db Http Orm Sql

/-! ### The text -/

section Text
variable {value : String} {fields columns : List String} {rows : List (List String)}

theorem field_escape (value : String) : Csv.Field value.toList (csvEscapeField value).toList := by
  rw [csvEscapeField]
  split
  · have htext : ("\"" ++ doubleQuotes value ++ "\"").toList = Csv.quoted value.toList := by
      simp only [doubleQuotes, Csv.quoted, String.toList_append, String.toList_ofList]
      rfl
    rw [htext]
    exact .escaped _
  · rename_i hplain
    refine .plain fun c hc => ?_
    simp only [not_or] at hplain
    simp only [Csv.special, Bool.or_eq_false_iff, decide_eq_false_iff_not]
    refine ⟨⟨⟨?_, ?_⟩, ?_⟩, ?_⟩ <;> rintro rfl <;> simp [hc] at hplain

theorem record_escape (hfields : fields ≠ []) :
    Csv.Record (fields.map String.toList) ([','].intercalate (fields.map fun value => (csvEscapeField value).toList)) := by
  refine .intercalate ?_ (by simpa using hfields)
  rw [List.forall₂_map_left_iff, List.forall₂_map_right_iff]
  exact List.forall₂_same.mpr fun value _ => field_escape value

theorem toList_csvLine (fields : List String) :
    (csvLine fields).toList = [','].intercalate (fields.map fun value => (csvEscapeField value).toList) ++ ['\r', '\n'] := by
  simp [csvLine, String.toList_intercalate, Function.comp_def]

/-- The text of columns and rows is a file of them, and of nothing else. -/
theorem file_rowsToCsv (hcolumns : columns ≠ []) (hrows : ∀ row ∈ rows, row ≠ []) (records : List (List (List Char))) :
    Csv.File records (rowsToCsv columns rows).toList ↔ records = (columns :: rows).map fun row => row.map String.toList := by
  have htext : (rowsToCsv columns rows).toList =
      ((columns :: rows).map fun row => [','].intercalate (row.map fun value => (csvEscapeField value).toList)).flatMap
        fun text => text ++ ['\r', '\n'] := by
    simp [rowsToCsv, String.toList_join, List.flatMap_map, toList_csvLine]
  have hfile : Csv.File ((columns :: rows).map fun row => row.map String.toList) (rowsToCsv columns rows).toList := by
    rw [htext]
    refine .lines ?_ (by simp)
    rw [List.forall₂_map_left_iff, List.forall₂_map_right_iff]
    refine List.forall₂_same.mpr fun row hrow => record_escape ?_
    rcases List.mem_cons.mp hrow with rfl | hrow
    · exact hcolumns
    · exact hrows row hrow
  exact ⟨fun h => h.unique hfile, fun h => h ▸ hfile⟩

end Text

/-! ### The rows -/

/-- The pages that a changelist shows of the rows in a state, from the first to the last. -/
structure PagesOf [Fmt] [UnquotedNames] (S : AdminServer) (w : World) (admin : ModelAdmin) (order : Option String) (size : Nat)
    (search : Option String) (filters : List (String × Bool)) (dateRange : Option (DateTime × DateTime))
    (tenant : TenantFilter) (pages : List ChangelistPage) : Prop where
  shown : ∀ (k : Nat) page, pages[k]? = some page →
    (admin.changelist order (k + 1) size search filters dateRange tenant).eval (AdminCall.exec S) w = (w, .ok page)
  all : ∀ page ∈ pages, pages.length = Rest.pageCount page.total size
  nonempty : pages ≠ []

section Pages
variable {admin : ModelAdmin} {order search : Option String} {filters : List (String × Bool)}
  {dateRange : Option (DateTime × DateTime)} {tenant : TenantFilter} {qs : QuerySet admin.info}

/-- What a changelist asks for has no window of its own, if the manager has none. -/
theorem windowless_filtered (hlimit : admin.objects.limit = none) (hoffset : admin.objects.offset = none)
    (h : admin.buildFilteredQueryset order search filters dateRange tenant = .ok qs) :
    qs.limit = none ∧ qs.offset = none := by
  obtain ⟨ordered, hordered, h⟩ := Except.bind_eq_ok.mp h
  have hpage := (QuerySet.narrow_kept (Rest.internal_eq_ok.mp h)).1
  have hsame : ordered.limit = none ∧ ordered.offset = none := by
    cases order with
    | none =>
      cases hordered
      exact ⟨hlimit, hoffset⟩
    | some field =>
      rw [ModelAdmin.ordered] at hordered
      cases horder : admin.objects.order field with
      | error e =>
        rw [horder] at hordered
        cases hordered
      | ok qs' =>
        rw [horder] at hordered
        cases hordered
        obtain ⟨entry, rfl⟩ := Rest.order_eq_ok horder
        exact ⟨hlimit, hoffset⟩
  exact ⟨hpage.limit.trans hsame.1, hpage.offset.trans hsame.2⟩

variable [Fmt] {S : Server} {db : Tables Cell} {rows : List (Row Cell)}

/-- Rows that can be counted can be read. -/
theorem fetch_of_count {n : Nat} (h : Rest.count S db qs = .ok n) (hlimit : qs.limit = none) :
    ∃ rows, S.fetch db (qs.select S.dialect) = .ok rows := by
  have hbound := compile_bound qs qs.limit qs.offset false S.dialect (containsWhere_head "COUNT(*)" (by simp))
  have hnot : ∀ text, (qs.select S.dialect).bound ≠ .dangling text := by
    intro text hdangling
    rw [Rest.count, hbound.trans hdangling] at h
    cases h
  have hwindow (rows : List (Row Cell)) : S.window (qs.select S.dialect) rows = S.limited none _ :=
    congrArg (S.limited · _) hlimit
  exact ⟨_, (Server.fetch_of_bound hnot).trans (hwindow _)⟩

/-- The rows that are counted, and those of each window. -/
theorem windows_of_fetch (hrows : S.fetch db (qs.select S.dialect) = .ok rows) (hlimit : qs.limit = none)
    (hoffset : qs.offset = none) : rows.length ≤ (db admin.info.tableName).length ∧
      Rest.count S db qs = .ok rows.length ∧ ∀ limit offset : Nat,
        S.fetch db (((qs.withLimit limit).withOffset offset).select S.dialect) = .ok ((rows.drop offset).take limit) := by
  have hall : rows = S.arrange (qs.orderSource true) (S.matched db (qs.select S.dialect)) := by
    have h := fetch_windowed hrows
    rw [QuerySet.windowed, hlimit, hoffset] at h
    exact h
  refine ⟨?_, ?_, fun limit offset => ?_⟩
  · rw [hall, (S.arrange_perm _ _).length_eq]
    exact List.length_filter_le _ _
  · have hbound := compile_bound qs qs.limit qs.offset false S.dialect (containsWhere_head "COUNT(*)" (by simp))
    rw [hall, (S.arrange_perm _ _).length_eq, Server.matched, ← List.countP_eq_length_filter, Rest.count]
    split
    · rename_i text hdangling
      exact absurd (hbound.symm.trans hdangling) (Server.fetch_bound hrows text)
    · rw [hbound]
      rfl
  · refine (fetch_compile hrows (some limit) (some offset) true rfl).trans ?_
    rw [← hall, limited_some, Option.getD_some, Int.toNat_natCast]

end Pages

section Evaluation
variable [Fmt] [UnquotedNames] {S : AdminServer} {w w' : World} {admin : ModelAdmin} {order search : Option String}
  {filters : List (String × Bool)} {dateRange : Option (DateTime × DateTime)} {tenant : TenantFilter}
  {qs : QuerySet admin.info}

theorem eval_all_eq_ok {α : Type} {f : List (List (String × Value)) → Handler α} {a : α} :
    (do
      let rows : List (Row Cell) ← ask (.all _ qs)
      f (← admin.decode rows) : Handler α).eval (AdminCall.exec S) w = (w', .ok a) ↔
    ∃ rows, S.fetch w.tables (qs.select S.dialect) = .ok rows ∧ ∃ items, rows.mapM admin.fieldValues = .ok items ∧
      (f items).eval (AdminCall.exec S) w = (w', .ok a) := by
  rw [eval_ask_eq_ok]
  simp only [AdminCall.exec, stopErr_eq_ok, ModelAdmin.decode, eval_orFail_eq_ok, Rest.internal_eq_ok]

theorem eval_export_eq_ok {columns : List String} {lines : List (List String)} :
    (admin.exportCsvRows order search filters dateRange tenant).eval (AdminCall.exec S) w = (w', .ok (columns, lines)) ↔
      ∃ qs, admin.buildFilteredQueryset order search filters dateRange tenant = .ok qs ∧
        ∃ rows, S.fetch w.tables (qs.select S.dialect) = .ok rows ∧ ∃ items, rows.mapM admin.fieldValues = .ok items ∧
          w = w' ∧ admin.effectiveColumns = columns ∧ items.map (admin.rowValues admin.effectiveColumns) = lines := by
  rw [ModelAdmin.exportCsvRows, eval_orFail_eq_ok]
  simp only [eval_all_eq_ok]
  simp [pure]

/-- The page of some rows. -/
def pageOf (admin : ModelAdmin) (items : List (List (String × Value))) (total : Nat) (page perPage : Int) : ChangelistPage where
  columns := admin.effectiveColumns
  rows := items.map (admin.rowValues admin.effectiveColumns)
  pks := items.map fun values => ModelAdmin.shown values ((admin.info.primaryKey?.map (·.name)).getD "id")
  total := total
  page := page
  perPage := perPage

theorem eval_changelist_eq_ok {page perPage : Int} {shown : ChangelistPage} :
    (admin.changelist order page perPage search filters dateRange tenant).eval (AdminCall.exec S) w = (w', .ok shown) ↔
      ∃ qs, admin.buildFilteredQueryset order search filters dateRange tenant = .ok qs ∧
        ∃ total, Rest.count S.toServer w.tables qs = .ok total ∧
          ∃ rows, S.fetch w.tables (((qs.withLimit perPage).withOffset (((page - 1) * perPage).bmod (2 ^ 64))).select S.dialect) =
              .ok rows ∧
            ∃ items, rows.mapM admin.fieldValues = .ok items ∧ w = w' ∧ pageOf admin items total page perPage = shown := by
  rw [ModelAdmin.changelist, eval_orFail_eq_ok]
  refine exists_congr fun qs => and_congr_right fun _ => ?_
  refine eval_ask_eq_ok.trans (exists_congr fun total => and_congr stopErr_eq_ok ?_)
  refine eval_all_eq_ok.trans ?_
  simp [pure, pageOf]
  rfl

omit [Fmt] [UnquotedNames] in
/-- Where the rows of a table can be counted in an `i64`, the offset of a page does not wrap. -/
theorem offset_eq {k size : Nat} (h : k * size < 2 ^ 63) : (((k : Int) + 1 - 1) * size).bmod (2 ^ 64) = (k * size : Nat) := by
  rw [Int.add_sub_cancel, ← Int.natCast_mul]
  generalize k * size = n at h
  rw [Int.bmod_def]
  omega

end Evaluation

section Exports
variable {S : AdminServer} {w : World} {admin : ModelAdmin} {order search : Option String}
  {filters : List (String × Bool)} {dateRange : Option (DateTime × DateTime)} {tenant : TenantFilter} {size : Nat}

theorem mapM_window {α β ε : Type} {f : α → Except ε β} {l : List α} {items : List β} (h : l.mapM f = .ok items) (k : Nat) :
    (Windows.window size k l).mapM f = .ok (Windows.window size k items) := by
  rw [Except.mapM_eq_ok] at h ⊢
  exact List.forall₂_take size (List.forall₂_drop (k * size) h)

variable [Fmt]

variable [UnquotedNames] in
/-- A page shows a window of the rows that an export shows. -/
theorem eval_changelist_of_fetch {qs : QuerySet admin.info} (hlimit : admin.objects.limit = none)
    (hoffset : admin.objects.offset = none) (hqs : admin.buildFilteredQueryset order search filters dateRange tenant = .ok qs)
    {rows : List (Row Cell)} (hrows : S.fetch w.tables (qs.select S.dialect) = .ok rows) {k : Nat} (hk : k * size < 2 ^ 63)
    {page : ChangelistPage} :
    (admin.changelist order (k + 1) size search filters dateRange tenant).eval (AdminCall.exec S) w = (w, .ok page) ↔
      ∃ items, (Windows.window size k rows).mapM admin.fieldValues = .ok items ∧
        pageOf admin items rows.length (k + 1) size = page := by
  obtain ⟨hlimit, hoffset⟩ := windowless_filtered hlimit hoffset hqs
  obtain ⟨-, hcount, hwindow⟩ := windows_of_fetch hrows hlimit hoffset
  rw [eval_changelist_eq_ok, offset_eq hk]
  constructor
  · rintro ⟨_, hqs', total, hcount', rows', hrows', items, hitems, -, rfl⟩
    obtain rfl := Except.ok.inj (hqs.symm.trans hqs')
    obtain rfl := Except.ok.inj (hcount.symm.trans hcount')
    obtain rfl := Except.ok.inj ((hwindow size (k * size)).symm.trans hrows')
    exact ⟨items, hitems, rfl⟩
  · rintro ⟨items, hitems, rfl⟩
    exact ⟨qs, hqs, _, hcount, _, hwindow size (k * size), items, hitems, rfl, rfl⟩

section Export
variable (hlimit : admin.objects.limit = none) (hoffset : admin.objects.offset = none) (hsize : 0 < size)
  (hcounts : ∀ table, (w.tables table).length < 2 ^ 63)
include hlimit hoffset hsize hcounts

/-- The offset of a page is below the number of rows. -/
theorem offset_lt {qs : QuerySet admin.info} {rows : List (Row Cell)}
    (hqs : admin.buildFilteredQueryset order search filters dateRange tenant = .ok qs)
    (hrows : S.fetch w.tables (qs.select S.dialect) = .ok rows) {k : Nat} (hk : k < Rest.pageCount rows.length size) :
    k * size < 2 ^ 63 := by
  obtain ⟨hlimit, hoffset⟩ := windowless_filtered hlimit hoffset hqs
  have hlength := (windows_of_fetch hrows hlimit hoffset).1
  have hoffset := Rest.mul_lt_of_lt_pageCount hsize hk
  have hcount := hcounts admin.info.tableName
  omega

variable [UnquotedNames]

theorem pages_of_fetch {qs : QuerySet admin.info} {rows : List (Row Cell)} {items : List (List (String × Value))}
    (hqs : admin.buildFilteredQueryset order search filters dateRange tenant = .ok qs)
    (hrows : S.fetch w.tables (qs.select S.dialect) = .ok rows) (hitems : rows.mapM admin.fieldValues = .ok items) :
    PagesOf S w admin order size search filters dateRange tenant ((List.range (Rest.pageCount rows.length size)).map
      fun k : Nat => pageOf admin (Windows.window size k items) rows.length (k + 1) size) where
  shown k page hpage := by
    obtain ⟨hk, rfl⟩ := List.getElem?_eq_some_iff.mp hpage
    rw [List.length_map, List.length_range] at hk
    rw [List.getElem_map, List.getElem_range]
    exact (eval_changelist_of_fetch hlimit hoffset hqs hrows (offset_lt hlimit hoffset hsize hcounts hqs hrows hk)).mpr
      ⟨_, mapM_window hitems k, rfl⟩
  all page hpage := by
    obtain ⟨k, -, rfl⟩ := List.mem_map.mp hpage
    rw [List.length_map, List.length_range]
    rfl
  nonempty := by
    have hpos := Rest.pageCount_pos rows.length hsize
    rw [Ne, List.map_eq_nil_iff, List.range_eq_nil]
    omega

/-- An export and the pages of the changelist show the same rows. -/
theorem export_iff_pages (columns : List String) (lines : List (List String)) :
    (admin.exportCsvRows order search filters dateRange tenant).eval (AdminCall.exec S) w = (w, .ok (columns, lines)) ↔
      columns = admin.effectiveColumns ∧ ∃ pages, PagesOf S w admin order size search filters dateRange tenant pages ∧
        lines = pages.flatMap (·.rows) := by
  have hwindows {α : Type} {l : List α} {total : Nat} (h : l.length = total) :
      ((List.range (Rest.pageCount total size)).flatMap fun k => Windows.window size k l) = l :=
    Windows.flatMap_window (h ▸ Rest.le_pageCount hsize)
  have hexport {rows : List (Row Cell)} {items : List (List (String × Value))}
      (hitems : rows.mapM admin.fieldValues = .ok items) :
      items.map (admin.rowValues admin.effectiveColumns) = ((List.range (Rest.pageCount rows.length size)).map fun k : Nat =>
        pageOf admin (Windows.window size k items) rows.length (k + 1) size).flatMap (·.rows) := by
    have hlength : items.length = rows.length := (Except.mapM_eq_ok.mp hitems).length_eq.symm
    rw [List.flatMap_map]
    change _ = (List.range _).flatMap fun k => (Windows.window size k items).map (admin.rowValues admin.effectiveColumns)
    rw [← List.map_flatMap, hwindows hlength]
  rw [eval_export_eq_ok]
  constructor
  · rintro ⟨qs, hqs, rows, hrows, items, hitems, -, rfl, rfl⟩
    exact ⟨rfl, _, pages_of_fetch hlimit hoffset hsize hcounts hqs hrows hitems, hexport hitems⟩
  · rintro ⟨rfl, pages, hpages, rfl⟩
    obtain ⟨first, others, rfl⟩ := List.exists_cons_of_ne_nil hpages.nonempty
    obtain ⟨qs, hqs, _, hcount, -⟩ := eval_changelist_eq_ok.mp (hpages.shown 0 first rfl)
    obtain ⟨rows, hrows⟩ := fetch_of_count hcount (windowless_filtered hlimit hoffset hqs).1
    have hshown {k : Nat} {page : ChangelistPage} (hk : k < Rest.pageCount rows.length size)
        (hpage : (first :: others)[k]? = some page) := (eval_changelist_of_fetch hlimit hoffset hqs hrows
      (offset_lt hlimit hoffset hsize hcounts hqs hrows hk)).mp (hpages.shown k page hpage)
    have hlength : (first :: others).length = Rest.pageCount rows.length size := by
      obtain ⟨_, -, hfirst⟩ := hshown (Rest.pageCount_pos rows.length hsize) rfl
      rw [hpages.all first List.mem_cons_self, ← hfirst]
      rfl
    -- each row is read for one of the pages
    have hread : ∀ row ∈ rows, ∃ values, admin.fieldValues row = .ok values := by
      intro row hrow
      obtain ⟨k, hk, hrow⟩ := List.mem_flatMap.mp ((hwindows rfl).symm ▸ hrow :
        row ∈ (List.range (Rest.pageCount rows.length size)).flatMap fun k => Windows.window size k rows)
      rw [List.mem_range] at hk
      obtain ⟨items, hitems, -⟩ := hshown hk (List.getElem?_eq_getElem (hlength ▸ hk))
      exact Except.mapM_isOk.mp ⟨items, hitems⟩ row hrow
    obtain ⟨items, hitems⟩ := Except.mapM_isOk.mpr hread
    refine ⟨qs, hqs, rows, hrows, items, hitems, rfl, rfl, ?_⟩
    rw [hexport hitems]
    refine congrArg (List.flatMap ChangelistPage.rows) (List.ext_getElem (by simp [← hlength]) fun k hk hk' => ?_)
    rw [List.getElem_map, List.getElem_range]
    obtain ⟨items', hitems', hpage⟩ := hshown (hlength ▸ hk') (List.getElem?_eq_getElem hk')
    obtain rfl := Except.ok.inj ((mapM_window hitems k).symm.trans hitems')
    exact hpage

end Export

variable [UnquotedNames]

/-- The text of an export is a file of its columns and rows alone, and an export has the rows of all pages of the
    changelist. A record has one value or more; `objects()` has no window of its own; a count is an `i64`. -/
theorem exports_complete (columns : List String) (rows : List (List String)) (hcolumns : columns ≠ [])
    (hrows : ∀ row ∈ rows, row ≠ []) (S : AdminServer) (w : World) (admin : ModelAdmin) (order search : Option String)
    (filters : List (String × Bool)) (dateRange : Option (DateTime × DateTime)) (tenant : TenantFilter) (size : Nat)
    (hlimit : admin.objects.limit = none) (hoffset : admin.objects.offset = none) (hsize : 0 < size)
    (hcounts : ∀ table, (w.tables table).length < 2 ^ 63) :
    (∀ records, Csv.File records (rowsToCsv columns rows).toList ↔
      records = (columns :: rows).map fun row => row.map String.toList) ∧
    ∀ exported lines, (admin.exportCsvRows order search filters dateRange tenant).eval (AdminCall.exec S) w =
        (w, .ok (exported, lines)) ↔
      exported = admin.effectiveColumns ∧ ∃ pages, PagesOf S w admin order size search filters dateRange tenant pages ∧
        lines = pages.flatMap (·.rows) :=
  ⟨file_rowsToCsv hcolumns hrows, export_iff_pages hlimit hoffset hsize hcounts⟩

end Exports

/-! ### A note -/

section Notes
attribute [local instance] Fmt.decimal noNumbers verbatim

theorem note_exported :
    (∀ records, Csv.File records (rowsToCsv ["id", "title"] [["7", "to be, or \"not\""]]).toList ↔
      records = [["id".toList, "title".toList], ["7".toList, "to be, or \"not\"".toList]]) ∧
    ∀ exported lines, (noteAdmin.exportCsvRows none none [] none none).eval (AdminCall.exec plainAdminServer)
        (noteSeven "public") = (noteSeven "public", .ok (exported, lines)) ↔
      exported = noteAdmin.effectiveColumns ∧
        ∃ pages, PagesOf plainAdminServer (noteSeven "public") noteAdmin none 100 none [] none none pages ∧
          lines = pages.flatMap (·.rows) := by
  refine exports_complete ["id", "title"] [["7", "to be, or \"not\""]] (by simp) (by simp) plainAdminServer _ noteAdmin _ _ _ _ _ 100 rfl rfl (by omega) fun table => ?_
  simp only [noteSeven, onlyRow, Function.update_apply]
  split <;> simp

end Notes

end Djangors.Admin
