import Djangors.Theorems.BaseFilter
import Djangors.Theorems.ChangeForms
import Djangors.Theorems.FieldControls

/-! # Saved changelists

The rows of a changelist are saved one by one. A row whose texts cannot be read is reported and kept, and the others hold
what is submitted for their cells. -/

namespace Djangors.Admin
open Db Http Orm Sql
open Migrations (CaseMap)

section Filtered
variable [Fmt] {admin : ModelAdmin} {S : AdminServer} {db : Tables Cell} {row : Row Cell} {order search : Option String}
  {filters : List (String × Bool)} {dateRange : Option (DateTime × DateTime)} {tenant : TenantFilter}
  {qs : QuerySet admin.info}

/-- The rows of a list are those of the manager that are in the tenant. -/
theorem scope_of_filtered (htenant : ∀ p ∈ tenant.toList, p.1 ∈ memberNames admin.info)
    (hqs : admin.buildFilteredQueryset order search filters dateRange tenant = .ok qs)
    (hkeeps : qs.keeps S.toServer db row = true) : admin.objects.keeps S.toServer db row = true ∧
      (tenant.toList.all fun (field, id) => S.has (admin.column field) id row) = true := by
  obtain ⟨ordered, hordered, hqs⟩ := Except.bind_eq_ok.mp hqs
  have hnarrow : ordered.narrow (admin.narrowings search filters dateRange tenant) = .ok qs := Rest.internal_eq_ok.mp hqs
  constructor
  · obtain ⟨after, hafter⟩ := narrow_extends hnarrow
    have hfilters : ordered.filters = admin.objects.filters := by
      cases order with
      | none =>
        cases hordered
        rfl
      | some field =>
        rw [ModelAdmin.ordered] at hordered
        cases horder : admin.objects.order field with
        | error e => rw [horder] at hordered; cases hordered
        | ok qs' =>
          rw [horder] at hordered
          cases hordered
          obtain ⟨entry, rfl⟩ := Rest.order_eq_ok horder
          rfl
    have hbound : qs.boundFilters S.dialect = QuerySet.boundFilters
        ({ filters := admin.objects.filters ++ after } : QuerySet admin.info) S.dialect := by
      rw [QuerySet.boundFilters, QuerySet.boundFilters, QuerySet.compileFilters, QuerySet.compileFilters, hafter, hfilters]
    have hsplit := QuerySet.boundFilters_append S.dialect ({ filters := admin.objects.filters } : QuerySet admin.info) after
    rw [QuerySet.keeps, hbound, hsplit, List.all_append, Bool.and_eq_true] at hkeeps
    exact hkeeps.1
  · rw [List.all_eq_true]
    intro p hp
    have hname := htenant p hp
    have hmem : .filter (.and [⟨p.1, .i64 p.2⟩]) ∈ admin.narrowings search filters dateRange tenant := by
      refine List.mem_append_right _ (List.mem_map.mpr ⟨⟨p.1, .i64 p.2⟩, ?_, rfl⟩)
      exact List.mem_map.mpr ⟨p, hp, rfl⟩
    obtain ⟨e, before, after, he, hfilters⟩ := narrow_filters hnarrow hmem
    have hequal := @resolveExpr_eq admin [(p.1, .i64 p.2)] (by simpa using hname)
    obtain rfl := Except.ok.inj (he.symm.trans hequal)
    have hkeeps := keeps_filter hfilters hkeeps
    have hcols : ∀ q ∈ [(p.1, Value.i64 p.2)], ∃ c, fieldToCol admin.info q.1 = .column c := fun q hq => by
      obtain rfl := List.mem_singleton.mp hq
      exact ⟨_, ModelAdmin.fieldToCol_eq hname⟩
    have hequals := (keeps_equalTo S.toServer db ({} : QuerySet admin.info) hcols row).symm.trans hkeeps
    rw [Bool.and_eq_true] at hequals
    exact List.all_eq_true.mp hequals.2 _ (List.mem_singleton_self _)

end Filtered

/-- A changelist that a user is shown who may change its rows. The manager looks at each row alone, and the database keeps
    the keys distinct. -/
structure ShownList [Fmt] [Rest.Parse] [UnquotedNames] [CaseMap] [Calendar] (S : AdminServer) (site : Site)
    (req : AdminRequest) (w : World) where
  access : Access
  page : ChangelistPage
  authorized : ∀ form, authorize site { req with form } "change" = .ok access
  shown : ∃ dates canAdd canChange canDelete, (adminChangelist site req).eval (AdminCall.exec S) w =
    (w, .ok (.changelist page dates canAdd canChange canDelete))
  alone : ∀ db db' row, access.admin.objects.keeps S.toServer db row = access.admin.objects.keeps S.toServer db' row
  once : ∀ row ∈ w.tables access.admin.info.tableName, (row.map (·.1)).Nodup
  keys : KeysDistinct S access.admin w.tables
  enforced : ∀ before after, S.refuses before after = none → KeysDistinct S access.admin after
  keyed : ∀ row ∈ w.tables access.admin.info.tableName, ∀ values, access.admin.fieldValues row = .ok values →
    ∃ pk : Int, -2 ^ 63 ≤ pk ∧ pk < 2 ^ 63 ∧ values.lookup access.admin.pk.name = some (.i64 pk) ∧
      S.has access.admin.pk.columnName pk row = true
  tenant : ∀ p ∈ access.tenant.toList, p.1 ∈ memberNames access.admin.info
  describes : Describes access.admin

/-- Posts the inputs of a changelist. -/
def postEdits [Fmt] [Rest.Parse] [UnquotedNames] [CaseMap] (S : AdminServer) (site : Site) (req : AdminRequest) (w : World)
    (pairs : List (String × String)) : World × Except Fault Reply :=
  (adminSaveChangelistPost site { req with form := .ok pairs }).eval (AdminCall.exec S) w

namespace ShownList
variable [Fmt] [Rest.Parse] [UnquotedNames] [CaseMap] [Calendar] {S : AdminServer} {site : Site} {req : AdminRequest}
  {w : World} (r : ShownList S site req w) (pairs : List (String × String))

abbrev admin : ModelAdmin := r.access.admin

abbrev table : String := r.admin.info.tableName

abbrev editable : List String := r.admin.config.listEditable.getD []

/-- The submission has other texts at most in the inputs of the page, which may be missing. -/
def OfPage : Prop :=
  ∀ p ∈ pairs, "edit-".toList.isPrefixOf p.1.toList = true → p.1 ∈ (editInputs r.admin r.page).map (·.1)

/-- A row holds what is submitted for its cells, and what it held in the others. -/
structure Holds (before after : Row Cell) : Prop where
  submitted : ∀ pk, S.has r.admin.pk.columnName pk before = true → ∀ f ∈ r.admin.info.fields, f.auto = false →
    ∀ s, formData pairs (editName (toString pk) f.name) = some s →
      ∃ v, parseFieldValue f (some s) = some (.ok v) ∧ after.lookup f.columnName = some (storedCell r.admin.info f.name v)
  others : ∀ column, (∀ pk, S.has r.admin.pk.columnName pk before = true → ∀ f ∈ r.admin.info.fields, f.auto = false →
    f.columnName = column → formData pairs (editName (toString pk) f.name) = none) →
      after.lookup column = before.lookup column

/-- A row is saved or reported, whatever becomes of the others. -/
structure RowByRow : Prop where
  tables : ∀ t, t ≠ r.table → (postEdits S site req w pairs).1.tables t = w.tables t
  rows : List.Forall₂ (fun before after => after = before ∨ r.Holds pairs before after) (w.tables r.table)
    ((postEdits S site req w pairs).1.tables r.table)
  saved : (postEdits S site req w pairs).2 = .ok (.redirect req.app req.model) →
    List.Forall₂ (r.Holds pairs) (w.tables r.table) ((postEdits S site req w pairs).1.tables r.table)
  reported : ∀ errors, (postEdits S site req w pairs).2 = .ok (.changelistErrors errors) → errors ≠ [] ∧
    (∀ e ∈ errors, e.2 ≠ [] ∧ ∀ p ∈ e.2, ∃ f ∈ r.admin.info.fields, f.name = p.1 ∧
      ∃ s, formData pairs (editName (toString e.1) f.name) = some s ∧ parseFieldValue f (some s) = some (.error p.2)) ∧
    List.Forall₂ (fun before after =>
      if ∃ e ∈ errors, S.has r.admin.pk.columnName e.1 before = true then after = before else r.Holds pairs before after)
      (w.tables r.table) ((postEdits S site req w pairs).1.tables r.table)

/-- The texts of the rows that are shown are read as what is stored. -/
def ReadsBack : Prop :=
  ∀ row ∈ w.tables r.table, ∀ values, r.admin.fieldValues row = .ok values →
    ∀ pk : Int, values.lookup r.admin.pk.name = some (.i64 pk) → toString pk ∈ r.page.pks →
      ∀ f ∈ r.admin.info.fields, f.auto = false → f.name ∈ r.editable →
        (r.admin.config.computedColumns.getD []).lookup f.name = none ∧ ∃ v, values.lookup f.name = some v ∧
          row.lookup f.columnName = some (storedCell r.admin.info f.name v) ∧ Printed f v

variable {r pairs}

/-! ### The rows of a page -/

/-- A row of a page is stored in the scope of its key, and its cells are shown under its key. -/
theorem mem_page : ∃ (rows : List (Row Cell)) (items : List (List (String × Value))) (total : Nat) (number size : Int), r.page = pageOf r.admin items total number size ∧
    rows.mapM r.admin.fieldValues = .ok items ∧ ∀ row ∈ rows, row ∈ w.tables r.table ∧
      ∀ pk, S.has r.admin.pk.columnName pk row = true →
        (scopedTo r.admin pk r.access.tenant).keeps S.toServer w.tables row = true := by
  obtain ⟨dates, canAdd, canChange, canDelete, h⟩ := r.shown
  obtain ⟨access, haccess, h⟩ := eval_orFail_eq_ok.mp h
  obtain ⟨hadmin, hauth, -, htenant⟩ := authorize_eq_ok.mp haccess
  obtain ⟨hadmin', hauth', -, htenant'⟩ := authorize_eq_ok.mp (r.authorized req.form)
  obtain ⟨admin, user, tenant⟩ := access
  obtain rfl : admin = r.admin := Except.ok.inj (hadmin.symm.trans hadmin')
  obtain rfl : user = r.access.user := Except.ok.inj (hauth.symm.trans hauth')
  obtain rfl : tenant = r.access.tenant := Except.ok.inj (htenant.symm.trans htenant')
  obtain ⟨_, -, h⟩ := eval_orFail_eq_ok.mp h
  obtain ⟨_, -, h⟩ := eval_orFail_eq_ok.mp h
  obtain ⟨_, -, h⟩ := eval_orFail_eq_ok.mp h
  obtain ⟨u, state, hstate, h⟩ := Fallible.eval_bind_eq_ok.mp h
  have hu : u = w := (congrArg Prod.fst hstate).symm
  rw [hu] at h
  obtain ⟨number, -, h⟩ := eval_orFail_eq_ok.mp h
  obtain ⟨u, page, hpage, h⟩ := Fallible.eval_bind_eq_ok.mp h
  obtain ⟨_, values, -, h⟩ := Fallible.eval_bind_eq_ok.mp h
  obtain rfl : page = r.page := by
    cases h
    rfl
  obtain ⟨qs, hqs, total, -, rows, hrows, items, hitems, -, hpage⟩ := eval_changelist_eq_ok.mp hpage
  refine ⟨rows, items, total, number, _, hpage.symm, hitems, fun row hrow => ?_⟩
  obtain ⟨hmem, hselects⟩ := fetch_mem hrows hrow
  have hkeeps : qs.keeps S.toServer w.tables row = true := keeps_of_selects hselects
  obtain ⟨hobjects, htenant⟩ := scope_of_filtered r.tenant hqs hkeeps
  refine ⟨hmem, fun pk hpk => ?_⟩
  rw [keeps_scopedTo _ _ r.tenant, hobjects, hpk, htenant]
  rfl

/-! ### Rows that are saved -/

section Saving
variable {edited : List (Int × String × String)} {saved : List Int} {pk : Int} {row : Row Cell} {u : World}
  {vs : List (String × Value)}

/-- The row with a key that the user can change. -/
def inScope (r : ShownList S site req w) (row : Row Cell) (pk : Int) : Bool :=
  (scopedTo r.admin pk r.access.tenant).keeps S.toServer w.tables row

/-- What the form of a key is read as. -/
def read (r : ShownList S site req w) (edited : List (Int × String × String)) (pk : Int) :
    Option (Except FormErrors (List (String × Value))) :=
  readForm (rowFields r.admin (editsOf edited pk)) [] (editsOf edited pk)

/-- The values of the form of a key. -/
def values (r : ShownList S site req w) (edited : List (Int × String × String)) (pk : Int) : List (String × Value) :=
  match r.read edited pk with
  | some (.ok vs) => vs
  | _ => []

/-- A row after its key has been saved, if it is one of some keys. -/
def saveRow (r : ShownList S site req w) (edited : List (Int × String × String)) (saved : List Int) (row : Row Cell) :
    Row Cell :=
  match saved.find? (r.inScope row) with
  | some pk => row.setAll (storedCells r.admin.info (r.values edited pk))
  | none => row

theorem keeps_eq (db : Tables Cell) :
    (scopedTo r.admin pk r.access.tenant).keeps S.toServer db row = r.inScope row pk := by
  rw [inScope, keeps_scopedTo _ _ r.tenant, keeps_scopedTo _ _ r.tenant, r.alone db w.tables]

theorem has_of_inScope (h : r.inScope row pk = true) : S.has r.admin.pk.columnName pk row = true := by
  rw [inScope, keeps_scopedTo _ _ r.tenant, Bool.and_eq_true, Bool.and_eq_true] at h
  exact h.2.1

theorem saveRow_of_inScope (h : r.inScope row pk = true) (hpk : pk ∈ saved) :
    r.saveRow edited saved row = row.setAll (storedCells r.admin.info (r.values edited pk)) := by
  rw [saveRow]
  cases hfind : saved.find? (r.inScope row) with
  | none => exact absurd h (List.find?_eq_none.mp hfind pk hpk)
  | some k => rw [has_unique (has_of_inScope h) (has_of_inScope (List.find?_some hfind))]

theorem saveRow_of_not_inScope (h : ∀ pk ∈ saved, r.inScope row pk = false) : r.saveRow edited saved row = row := by
  rw [saveRow, List.find?_eq_none.mpr fun pk hpk => by rw [h pk hpk]; decide]

/-- The tables after some keys have been saved. -/
structure Saved (r : ShownList S site req w) (edited : List (Int × String × String)) (saved : List Int) (u : World) : Prop where
  tables : u.tables = Function.update w.tables r.table ((w.tables r.table).map (r.saveRow edited saved))
  keys : KeysDistinct S r.admin u.tables

theorem saved_nil : r.Saved edited [] w where
  tables := by
    rw [List.map_congr_left fun row _ => saveRow_of_not_inScope (by simp), List.map_id', Function.update_eq_self]
  keys := r.keys

/-- The statement for another key changes the row of this key alone: a row with a new key would have it twice. -/
theorem assigned_saved (h : r.Saved edited saved u) (hpk : pk ∉ saved) {own : Row Cell} (hown : own ∈ w.tables r.table)
    (hscope : r.inScope own pk = true) (hrow : row ∈ w.tables r.table) :
    assigned S u.tables (scopedTo r.admin pk r.access.tenant) (r.values edited pk) (r.saveRow edited saved row) =
      r.saveRow edited (pk :: saved) row := by
  have hnew {row : Row Cell} (h : r.inScope row pk = true) : ∀ k ∈ saved, r.inScope row k = false := by
    intro k hk
    by_contra hscope
    rw [has_unique (has_of_inScope h) (has_of_inScope (Bool.eq_true_of_not_eq_false hscope))] at hpk
    exact hpk hk
  by_cases hin : r.inScope row pk = true
  · rw [saveRow_of_not_inScope (hnew hin), saveRow_of_inScope hin List.mem_cons_self]
    exact if_pos ((keeps_eq _).trans hin)
  · have hsame : r.saveRow edited (pk :: saved) row = r.saveRow edited saved row := by
      rw [saveRow, List.find?_cons_of_neg hin]
      rfl
    rw [hsame]
    refine if_neg fun hkeeps => ?_
    rw [keeps_eq] at hkeeps
    have hkeys := h.keys
    rw [KeysDistinct, h.tables, Function.update_self, List.pairwise_map] at hkeys
    have hsymm : Std.Symm fun a b : Row Cell => ∀ n, ¬(S.has r.admin.pk.columnName n (r.saveRow edited saved a) = true ∧
        S.has r.admin.pk.columnName n (r.saveRow edited saved b) = true) := ⟨fun _ _ h n hn => h n hn.symm⟩
    refine hkeys.forall hrow hown (fun heq => hin (heq ▸ hscope)) pk ⟨has_of_inScope hkeeps, ?_⟩
    rw [saveRow_of_not_inScope (hnew hscope)]
    exact has_of_inScope hscope

theorem saved_update (h : r.Saved edited saved u) (hpk : pk ∉ saved) {own : Row Cell} (hown : own ∈ w.tables r.table)
    (hscope : r.inScope own pk = true) {after : Tables Cell} {effects : List Effect} {n : Nat}
    (hrun : AdminCall.runUpdate S u.tables r.admin.info (scopedTo r.admin pk r.access.tenant)
      (literals (r.values edited pk)) = .ok (after, effects, n)) {u' : World} (hu' : u'.tables = after) :
    r.Saved edited (pk :: saved) u' := by
  obtain ⟨hafter, -⟩ := runUpdate_eq_ok hrun
  have htable : u.tables r.table = (w.tables r.table).map (r.saveRow edited saved) := by rw [h.tables, Function.update_self]
  refine ⟨?_, ?_⟩
  · rw [hu', hafter, htable, List.map_map, h.tables, Function.update_idem]
    refine congrArg _ (List.map_congr_left fun row hrow => ?_)
    rw [← h.tables]
    exact assigned_saved h hpk hown hscope hrow
  · rw [hu']
    exact r.enforced _ _ (taken_of_runUpdate hrun)

theorem Saved.congr (h : r.Saved edited saved u) {u' : World} (hu' : u'.tables = u.tables) : r.Saved edited saved u' :=
  ⟨hu'.trans h.tables, hu' ▸ h.keys⟩

/-- A form without values saves its row as it is. -/
theorem saved_same (h : r.Saved edited saved u) (hpk : pk ∉ saved) {own : Row Cell} (hown : own ∈ w.tables r.table)
    (hscope : r.inScope own pk = true) (hvalues : r.values edited pk = []) : r.Saved edited (pk :: saved) u := by
  refine ⟨h.tables.trans (congrArg _ (List.map_congr_left fun row hrow => ?_)), h.keys⟩
  rw [← assigned_saved h hpk hown hscope hrow, hvalues]
  exact (ite_self _).symm

omit [Rest.Parse] [CaseMap] [Calendar] in
theorem eval_ask_of_exec {call : AdminCall} {answer : call.Answer} {u' : World} (h : call.exec S u = (u', answer)) :
    (ask call).eval (AdminCall.exec S) u = (u', answer.mapError .ofStop) :=
  congrArg (fun result : World × call.Answer => (result.1, result.2.mapError Fault.ofStop)) h

/-- A form whose texts are read saves its row, and another one leaves it. -/
theorem update_cases (h : r.Saved edited saved u) (hpk : pk ∉ saved) {own : Row Cell} (hown : own ∈ w.tables r.table)
    (hscope : r.inScope own pk = true) {u' : World} {out : Except Fault (Except FormErrors Unit)}
    (heval : (r.admin.updateFieldsFromForm pk (editsOf edited pk) r.access.tenant).eval (AdminCall.exec S) u = (u', out)) :
    (r.Saved edited saved u' ∧ ∀ result, out = .ok result → ∃ errors, result = .error errors ∧
      r.read edited pk = some (.error errors)) ∨
    (r.Saved edited (pk :: saved) u' ∧ (∃ vs, r.read edited pk = some (.ok vs)) ∧ out = .ok (.ok ())) := by
  change (orPanic (r.read edited pk) >>= _).eval _ u = _ at heval
  rcases hread : r.read edited pk with _ | errors | vs
  · rw [hread] at heval
    cases heval
    exact .inl ⟨h, fun _ hout => by cases hout⟩
  · rw [hread] at heval
    cases heval
    exact .inl ⟨h, fun _ hout => ⟨errors, (Except.ok.inj hout).symm, rfl⟩⟩
  · have hvalues : r.values edited pk = vs := by rw [values, hread]
    rw [hread] at heval
    cases vs with
    | nil =>
      cases heval
      exact .inr ⟨saved_same h hpk hown hscope hvalues, ⟨_, rfl⟩, rfl⟩
    | cons p vs =>
      have hupdate : (r.admin.updateTo pk r.access.tenant (p :: vs)).eval (AdminCall.exec S) u = (u', out) := heval
      rw [ModelAdmin.updateTo, scopedPkQueryset_eq r.tenant, orFail_bind] at hupdate
      dsimp only at hupdate
      cases hrun : AdminCall.runUpdate S u.tables r.admin.info (scopedTo r.admin pk r.access.tenant) (literals (p :: vs)) with
      | error e =>
        have hexec : (AdminCall.update _ (scopedTo r.admin pk r.access.tenant) (literals (p :: vs))).exec S u =
            (u, .error e) := by rw [AdminCall.exec, hrun]; rfl
        obtain ⟨rfl, rfl⟩ := Prod.mk.inj ((Fallible.eval_bind_error (eval_ask_of_exec hexec)).symm.trans hupdate)
        exact .inl ⟨h, fun _ hout => by cases hout⟩
      | ok result =>
        obtain ⟨after, effects, n⟩ := result
        have hexec : (AdminCall.update _ (scopedTo r.admin pk r.access.tenant) (literals (p :: vs))).exec S u =
            ({ u with tables := after, history := u.history ++ effects }, .ok n) := by rw [AdminCall.exec, hrun]; rfl
        obtain ⟨rfl, rfl⟩ := Prod.mk.inj ((Fallible.eval_bind_ok (eval_ask_of_exec hexec)).symm.trans hupdate)
        rw [← hvalues] at hrun
        exact .inr ⟨saved_update h hpk hown hscope hrun rfl, ⟨_, rfl⟩, rfl⟩

/-- What has become of some keys: those that are saved, and the errors of the others. -/
structure Outcome (r : ShownList S site req w) (edited : List (Int × String × String)) (saved pks now : List Int)
    (out : Except Fault (List (Int × FormErrors))) : Prop where
  since : ∀ k ∈ saved, k ∈ now
  readable : ∀ k ∈ now, k ∈ saved ∨ k ∈ pks ∧ ∃ vs, r.read edited k = some (.ok vs)
  errors : ∀ errors, out = .ok errors → (∀ e ∈ errors, e.1 ∈ pks ∧ e.1 ∉ now ∧ r.read edited e.1 = some (.error e.2)) ∧
    ∀ k ∈ pks, k ∈ now ∨ k ∈ errors.map (·.1)

/-- By induction on the keys: each is saved or reported. -/
theorem saveRows_cases {pks : List Int} (h : r.Saved edited saved u) (hnodup : pks.Nodup) (hnew : ∀ k ∈ pks, k ∉ saved)
    (hown : ∀ k ∈ pks, ∃ own ∈ w.tables r.table, r.inScope own k = true) :
    ∃ now, r.Saved edited now ((saveRows r.access edited pks).eval (AdminCall.exec S) u).1 ∧
      r.Outcome edited saved pks now ((saveRows r.access edited pks).eval (AdminCall.exec S) u).2 := by
  induction pks generalizing saved u with
  | nil =>
    refine ⟨saved, h, fun _ hk => hk, fun _ hk => .inl hk, fun errors herrors => ⟨fun e he => ?_, fun _ hk => by cases hk⟩⟩
    cases herrors
    cases he
  | cons pk pks ih =>
    obtain ⟨hpk, hnodup⟩ := List.nodup_cons.mp hnodup
    obtain ⟨own, hmem, hscope⟩ := hown pk List.mem_cons_self
    have hfresh := hnew pk List.mem_cons_self
    have hnew' : ∀ k ∈ pks, k ∉ saved := fun k hk => hnew k (List.mem_cons_of_mem _ hk)
    have hown' : ∀ k ∈ pks, ∃ own ∈ w.tables r.table, r.inScope own k = true := fun k hk => hown k (List.mem_cons_of_mem _ hk)
    rw [saveRows, Fallible.eval_bind]
    rcases hresult : (r.admin.updateFieldsFromForm pk (editsOf edited pk) r.access.tenant).eval (AdminCall.exec S) u with
      ⟨u', out⟩
    rcases update_cases h hfresh hmem hscope hresult with ⟨hsaved, herrors⟩ | ⟨hsaved, hread, rfl⟩
    · cases out with
      | error e =>
        refine ⟨saved, hsaved, fun _ hk => hk, fun _ hk => .inl hk, fun _ h => ?_⟩
        cases h
      | ok result =>
        obtain ⟨errors, rfl, hread⟩ := herrors result rfl
        obtain ⟨now, hnow, hout⟩ := ih hsaved hnodup hnew' hown'
        have hunsaved : pk ∉ now := fun hk => (hout.readable pk hk).elim hfresh fun hk => hpk hk.1
        have hnext : (saveRows r.access edited pks >>= fun rest => (pure ((pk, errors) :: rest) : Handler _)).eval
            (AdminCall.exec S) u' = (((saveRows r.access edited pks).eval (AdminCall.exec S) u').1,
              ((saveRows r.access edited pks).eval (AdminCall.exec S) u').2.map ((pk, errors) :: ·)) := by
          rw [Fallible.eval_bind]
          cases ((saveRows r.access edited pks).eval (AdminCall.exec S) u').2 <;> rfl
        refine ⟨now, (congrArg Prod.fst hnext) ▸ hnow, ?_⟩
        refine (congrArg Prod.snd hnext) ▸ ⟨hout.since, fun k hk => ?_, fun all hall => ?_⟩
        · exact (hout.readable k hk).imp_right fun hk => ⟨List.mem_cons_of_mem _ hk.1, hk.2⟩
        · obtain ⟨rest, hrest, rfl⟩ := Except.map_eq_ok hall
          obtain ⟨hreported, hall⟩ := hout.errors rest hrest
          refine ⟨fun e he => ?_, fun k hk => ?_⟩
          · rcases List.mem_cons.mp he with rfl | he
            · exact ⟨List.mem_cons_self, hunsaved, hread⟩
            · exact (hreported e he).imp_left (List.mem_cons_of_mem _)
          · rcases List.mem_cons.mp hk with rfl | hk
            · exact .inr List.mem_cons_self
            · exact (hall k hk).imp_right (List.mem_cons_of_mem _)
    · have hquiet := (eval_quiet (S := S) (w := u')
        (quiet_logAction pk r.access.user r.admin.info actionChange "Changed." none)).1
      have hnext : (logAction r.access.user r.admin.info pk actionChange "Changed." none >>= fun _ =>
          saveRows r.access edited pks).eval (AdminCall.exec S) u' = _ := Fallible.eval_bind
      rcases hlog : (logAction r.access.user r.admin.info pk actionChange "Changed." none).eval (AdminCall.exec S) u' with
        ⟨u'', logged⟩
      rw [hlog] at hnext hquiet
      have hsaved := hsaved.congr hquiet
      cases logged with
      | error e =>
        refine ⟨pk :: saved, (congrArg Prod.fst hnext) ▸ hsaved, ?_⟩
        refine (congrArg Prod.snd hnext) ▸ ⟨fun k hk => List.mem_cons_of_mem _ hk, fun k hk => ?_, fun _ h => by cases h⟩
        rcases List.mem_cons.mp hk with rfl | hk
        · exact .inr ⟨List.mem_cons_self, hread⟩
        · exact .inl hk
      | ok _ =>
        obtain ⟨now, hnow, hout⟩ := ih hsaved hnodup
          (fun k hk hmem => (List.mem_cons.mp hmem).elim (fun heq => hpk (heq ▸ hk)) (hnew' k hk)) hown'
        refine ⟨now, (congrArg Prod.fst hnext) ▸ hnow, ?_⟩
        refine (congrArg Prod.snd hnext) ▸ ⟨fun k hk => hout.since k (List.mem_cons_of_mem _ hk), fun k hk => ?_, fun all hall => ?_⟩
        · rcases hout.readable k hk with hk | hk
          · rcases List.mem_cons.mp hk with rfl | hk
            · exact .inr ⟨List.mem_cons_self, hread⟩
            · exact .inl hk
          · exact .inr ⟨List.mem_cons_of_mem _ hk.1, hk.2⟩
        · obtain ⟨hreported, hall⟩ := hout.errors all hall
          refine ⟨fun e he => (hreported e he).imp_left (List.mem_cons_of_mem _), fun k hk => ?_⟩
          rcases List.mem_cons.mp hk with rfl | hk
          · exact .inl (hout.since _ List.mem_cons_self)
          · exact hall k hk

end Saving

/-! ### What is submitted -/

section Inputs
variable {edited : List (Int × String × String)}

/-- The text of a cell. -/
def cellText (admin : ModelAdmin) (values : List (String × Value)) (column : String) : String :=
  match (admin.config.computedColumns.getD []).lookup column with
  | some f => f values
  | none => ModelAdmin.shown values column

/-- An input is of a cell of a row that is stored in the scope of its key. -/
theorem mem_editInputs {p : String × String} (hp : p ∈ editInputs r.admin r.page) :
    ∃ row ∈ w.tables r.table, ∃ values, r.admin.fieldValues row = .ok values ∧ ∃ pk : Int, -2 ^ 63 ≤ pk ∧ pk < 2 ^ 63 ∧
      values.lookup r.admin.pk.name = some (.i64 pk) ∧ r.inScope row pk = true ∧ toString pk ∈ r.page.pks ∧
        ∃ column ∈ r.editable, p = (editName (toString pk) column, cellText r.admin values column) := by
  obtain ⟨rows, items, total, number, size, hpage, hitems, hrows⟩ := mem_page (r := r)
  obtain ⟨⟨cells, rowIndex⟩, hcells, hp⟩ := List.mem_flatMap.mp hp
  obtain ⟨⟨cell, i⟩, hcell, hp⟩ := List.mem_filterMap.mp hp
  dsimp only at hp
  split at hp
  · rename_i heditable
    cases hp
    rw [List.mem_zipIdx_iff_getElem?] at hcells hcell
    dsimp only at hcells hcell
    rw [hpage, pageOf, List.getElem?_map] at hcells
    obtain ⟨values, hvalues, rfl⟩ := Option.map_eq_some_iff.mp hcells
    rw [ModelAdmin.rowValues, List.getElem?_map] at hcell
    obtain ⟨column, hcolumn, rfl⟩ := Option.map_eq_some_iff.mp hcell
    have hname : r.page.columns.getD i "" = column := by
      rw [hpage, pageOf, List.getD_eq_getElem?_getD, hcolumn]
      rfl
    rw [hname] at heditable ⊢
    obtain ⟨row, hrow, hread⟩ := (Except.mapM_eq_ok.mp hitems).exists_of_mem_right (List.mem_of_getElem? hvalues)
    obtain ⟨hstored, hscope⟩ := hrows row hrow
    obtain ⟨pk, hlower, hupper, hpk, hhas⟩ := r.keyed row hstored values hread
    have htext : ModelAdmin.shown values ((r.admin.info.primaryKey?.map (·.name)).getD "id") = toString pk := by
      rw [r.admin.primaryKey_eq, Option.map_some, Option.getD_some, ModelAdmin.shown, hpk]
      rfl
    have hkey : r.page.pks.getD rowIndex "" = toString pk := by
      rw [hpage, pageOf, List.getD_eq_getElem?_getD, List.getElem?_map, hvalues, ← htext]
      rfl
    refine ⟨row, hstored, values, hread, pk, hlower, hupper, hpk, hscope pk hhas, ?_, column, heditable.2, ?_⟩
    · rw [hpage, ← htext]
      exact List.mem_map.mpr ⟨values, List.mem_of_getElem? hvalues, rfl⟩
    · rw [hkey]
      rfl
  · cases hp

theorem canonical_of_ofPage (h : r.OfPage pairs) : Canonical r.editable pairs := by
  intro p hp hpre
  obtain ⟨q, hq, hname⟩ := List.mem_map.mp (h p hp hpre)
  obtain ⟨_, -, _, -, pk, hlower, hupper, -, -, -, column, hcolumn, rfl⟩ := mem_editInputs hq
  exact ⟨pk, hlower, hupper, column, hcolumn, hname.symm⟩

/-- A key that is submitted is of a row that can be changed, and that has every column. -/
theorem own_of_ofPage (h : r.OfPage pairs) (hedits : edits r.editable pairs = .ok edited) {pk : Int}
    (hpk : pk ∈ edited.map (·.1)) : ∃ own ∈ w.tables r.table, r.inScope own pk = true ∧
      ∃ values, r.admin.fieldValues own = .ok values := by
  obtain ⟨name, value, htext⟩ := exists_edit.mp hpk
  rw [editsOf_eq (canonical_of_ofPage h) hedits] at htext
  have hmem := List.mem_reverse.mp (List.mem_of_lookup htext)
  obtain ⟨q, hq, hname⟩ := List.mem_map.mp (h _ hmem (isPrefixOf_editName ..))
  obtain ⟨row, hrow, values, hread, k, -, -, -, hscope, -, column, -, rfl⟩ := mem_editInputs hq
  obtain ⟨rfl, -⟩ := editName_inj.mp hname
  exact ⟨row, hrow, hscope, values, hread⟩

theorem post_error {e : DjangorsError} (h : edits r.editable pairs = .error e) :
    postEdits S site req w pairs = (w, .error (.error e)) := by
  rw [postEdits, adminSaveChangelistPost, r.authorized, orFail_bind]
  dsimp only
  rw [orFail_bind]
  dsimp only
  rw [h, orFail_bind]
  rfl

/-- The keys in the order in which their rows are saved. -/
abbrev keysOf (site : Site) (edited : List (Int × String × String)) : List Int := site.iterate (edited.map (·.1)).dedup

theorem post_ok (h : edits r.editable pairs = .ok edited) : postEdits S site req w pairs =
    (((saveRows r.access edited (keysOf site edited)).eval (AdminCall.exec S) w).1,
      ((saveRows r.access edited (keysOf site edited)).eval (AdminCall.exec S) w).2.map fun errors =>
        if errors = [] then .redirect req.app req.model else .changelistErrors errors) := by
  rw [postEdits, adminSaveChangelistPost, r.authorized, orFail_bind]
  dsimp only
  rw [orFail_bind]
  dsimp only
  rw [h, orFail_bind, Fallible.eval_bind]
  cases ((saveRows r.access edited (keysOf site edited)).eval (AdminCall.exec S) w).2 <;> rfl

section Cells
variable {now : List Int} {row : Row Cell} (hpage : r.OfPage pairs) (hedits : edits r.editable pairs = .ok edited)
include hpage hedits

theorem text_eq (pk : Int) (name : String) : editsOf edited pk name = formData pairs (editName (toString pk) name) :=
  editsOf_eq (canonical_of_ofPage hpage) hedits pk name

omit hpage hedits in
/-- A row whose key has not been saved is as it was. -/
theorem saveRow_of_unsaved (h : ∀ pk, S.has r.admin.pk.columnName pk row = true → pk ∉ now) : r.saveRow edited now row = row :=
  saveRow_of_not_inScope fun k hk => Bool.eq_false_of_not_eq_true fun hin => h k (has_of_inScope hin) hk

/-- A row whose key has been saved, or is not submitted, holds what is submitted. -/
theorem holds_saveRow (hread : ∀ k ∈ now, ∃ vs, r.read edited k = some (.ok vs)) (hrow : row ∈ w.tables r.table)
    (hall : ∀ pk, S.has r.admin.pk.columnName pk row = true → pk ∈ edited.map (·.1) → pk ∈ now) :
    r.Holds pairs row (r.saveRow edited now row) := by
  have hown {pk : Int} (hpk : S.has r.admin.pk.columnName pk row = true) (hmem : pk ∈ edited.map (·.1)) :
      r.inScope row pk = true ∧ ∃ values, r.admin.fieldValues row = .ok values := by
    obtain ⟨own, hstored, hscope, hdecoded⟩ := own_of_ofPage hpage hedits hmem
    obtain rfl := r.keys.eq hstored hrow (has_of_inScope hscope) hpk
    exact ⟨hscope, hdecoded⟩
  constructor
  · intro pk hpk f hf hauto s hs
    rw [← text_eq hpage hedits] at hs
    have hmem := exists_edit.mpr ⟨_, _, hs⟩
    obtain ⟨hscope, values, hdecoded⟩ := hown hpk hmem
    have hnow := hall pk hpk hmem
    obtain ⟨vs, hvs⟩ := hread pk hnow
    have hvalues : r.values edited pk = vs := by rw [ShownList.values, hvs]
    obtain ⟨hnames, hmembers⟩ := readForm_members List.filter_sublist (List.nil_sublist _) hvs
    have hfield : f ∈ rowFields r.admin (editsOf edited pk) := List.mem_filter.mpr ⟨hf, by rw [hauto, hs]; rfl⟩
    obtain ⟨v, hv, hparse⟩ := readForm_field hvs hnames hfield
    have hname := ModelAdmin.mem_memberNames_of_field hf
    have hcolumn := ModelAdmin.column_field hf
    have hshown : f.name ∈ r.admin.fieldNames := by
      refine (r.describes.mem_iff _).mpr ⟨hname, ?_⟩
      rw [hcolumn]
      exact List.mem_append_left _ (List.mem_map_of_mem hf)
    obtain ⟨old, hold⟩ := Option.isSome_iff_exists.mp (r.describes.columns _ _ hdecoded _ hshown)
    refine ⟨v, hs ▸ hparse, ?_⟩
    rw [saveRow_of_inScope hscope hnow, hvalues, ← hcolumn, Row.lookup_setAll (storedCells_nodup hnames hmembers),
      lookup_storedCells hmembers hname, hv, hold]
    rfl
  · intro column hnone
    by_cases hsaved : ∃ pk ∈ now, r.inScope row pk = true
    · obtain ⟨pk, hnow, hscope⟩ := hsaved
      obtain ⟨vs, hvs⟩ := hread pk hnow
      have hvalues : r.values edited pk = vs := by rw [ShownList.values, hvs]
      obtain ⟨hnames, hmembers⟩ := readForm_members List.filter_sublist (List.nil_sublist _) hvs
      have hother : (storedCells r.admin.info vs).lookup column = none := by
        refine List.lookup_eq_none_iff.mpr fun cell hcell => bne_iff_ne.mpr fun heq => ?_
        have hcolumns := List.mem_map_of_mem (f := Prod.fst) hcell
        rw [storedCells_columns, readForm_names hvs, List.map_nil, List.append_nil, List.map_map] at hcolumns
        obtain ⟨f, hf, hcolumn⟩ := List.mem_map.mp hcolumns
        obtain ⟨hf, hchosen⟩ := List.mem_filter.mp hf
        rw [Bool.and_eq_true, Bool.not_eq_true'] at hchosen
        rw [Function.comp_apply, ModelAdmin.column_field hf] at hcolumn
        have htext := hnone pk (has_of_inScope hscope) f hf hchosen.1 (hcolumn.trans heq.symm)
        rw [← text_eq hpage hedits] at htext
        rw [htext] at hchosen
        cases hchosen.2
      rw [saveRow_of_inScope hscope hnow, hvalues, Row.lookup_setAll (storedCells_nodup hnames hmembers), hother]
      cases row.lookup column <;> rfl
    · rw [saveRow_of_not_inScope fun k hk => Bool.eq_false_of_not_eq_true fun hin => hsaved ⟨k, hk, hin⟩]

end Cells

omit [Fmt] [UnquotedNames] [CaseMap] [Calendar] in
/-- The errors of a form are those of its fields. -/
theorem readForm_errors {fields : List FieldMeta} {form : FormData} {errors : FormErrors}
    (h : readForm fields [] form = some (.error errors)) :
    errors ≠ [] ∧ ∀ p ∈ errors, ∃ f ∈ fields, f.name = p.1 ∧ parseFieldValue f (form f.name) = some (.error p.2) := by
  obtain ⟨read, hread, h⟩ := Option.bind_eq_some_iff.mp h
  have h := Option.some.inj h
  split at h
  · cases h
  · rename_i herrors
    obtain rfl := Except.error.inj h
    refine ⟨herrors, fun p hp => ?_⟩
    obtain ⟨⟨name, result⟩, hentry, hp⟩ := List.mem_filterMap.mp hp
    rw [List.map_nil, List.append_nil] at hentry
    obtain ⟨f, hf, hparse⟩ := (Option.mapM_eq_some.mp hread).exists_of_mem_right hentry
    obtain ⟨result', hparse, heq⟩ := Option.map_eq_some_iff.mp hparse
    cases heq
    cases result with
    | ok v => cases hp
    | error message =>
      cases hp
      exact ⟨f, hf, rfl, hparse⟩

omit [Fmt] [Rest.Parse] [UnquotedNames] [CaseMap] [Calendar] in
theorem mem_keysOf {k : Int} : k ∈ keysOf site edited ↔ k ∈ edited.map (·.1) := by
  rw [(site.iterate_perm _).mem_iff, List.mem_dedup]

/-- The rows of a form whose names can be read, after it has been saved. -/
theorem post_cases (hpage : r.OfPage pairs) (hedits : edits r.editable pairs = .ok edited) :
    ∃ now, r.Saved edited now (postEdits S site req w pairs).1 ∧ r.Outcome edited [] (keysOf site edited) now
      ((saveRows r.access edited (keysOf site edited)).eval (AdminCall.exec S) w).2 := by
  rw [post_ok hedits]
  refine saveRows_cases saved_nil ((site.iterate_perm _).nodup_iff.mpr (List.nodup_dedup _)) (by simp) fun k hk => ?_
  obtain ⟨own, hown, hscope, -⟩ := own_of_ofPage hpage hedits (mem_keysOf.mp hk)
  exact ⟨own, hown, hscope⟩

theorem Saved.forall₂ {saved : List Int} {u : World} (h : r.Saved edited saved u) {R : Row Cell → Row Cell → Prop}
    (hR : ∀ row ∈ w.tables r.table, R row (r.saveRow edited saved row)) :
    List.Forall₂ R (w.tables r.table) (u.tables r.table) := by
  rw [h.tables, Function.update_self, List.forall₂_map_right_iff]
  exact List.forall₂_same.mpr hR

theorem rowByRow_of_ofPage (hpage : r.OfPage pairs) : r.RowByRow pairs := by
  cases hedits : edits r.editable pairs with
  | error e =>
    have hpost := post_error hedits
    refine ⟨fun t _ => by rw [hpost], ?_, fun h => ?_, fun errors h => ?_⟩
    · rw [hpost]
      exact List.forall₂_same.mpr fun _ _ => .inl rfl
    · rw [hpost] at h
      cases h
    · rw [hpost] at h
      cases h
  | ok edited =>
    obtain ⟨now, hsaved, hout⟩ := post_cases hpage hedits
    have hread : ∀ k ∈ now, ∃ vs, r.read edited k = some (.ok vs) := fun k hk =>
      ((hout.readable k hk).resolve_left List.not_mem_nil).2
    have hreply {reply : Reply} (h : (postEdits S site req w pairs).2 = .ok reply) : ∃ errors,
        ((saveRows r.access edited (keysOf site edited)).eval (AdminCall.exec S) w).2 = .ok errors ∧
          (if errors = [] then .redirect req.app req.model else .changelistErrors errors) = reply := by
      rw [post_ok hedits] at h
      exact Except.map_eq_ok h
    refine ⟨fun t ht => ?_, ?_, fun h => ?_, fun errors h => ?_⟩
    · rw [hsaved.tables, Function.update_of_ne ht]
    · refine hsaved.forall₂ fun row hrow => ?_
      by_cases hkey : ∃ k ∈ now, S.has r.admin.pk.columnName k row = true
      · obtain ⟨k, hk, hhas⟩ := hkey
        exact .inr (holds_saveRow hpage hedits hread hrow fun pk hpk _ => has_unique hhas hpk ▸ hk)
      · exact .inl (saveRow_of_unsaved fun k hk hmem => hkey ⟨k, hmem, hk⟩)
    · obtain ⟨errors, herrors, h⟩ := hreply h
      have hnil : errors = [] := by
        by_contra hne
        rw [if_neg hne] at h
        cases h
      obtain ⟨-, hall⟩ := hout.errors errors herrors
      refine hsaved.forall₂ fun row hrow => holds_saveRow hpage hedits hread hrow fun pk _ hmem => ?_
      refine (hall pk (mem_keysOf.mpr hmem)).resolve_right ?_
      rw [hnil]
      exact List.not_mem_nil
    · obtain ⟨_, herrors, h⟩ := hreply h
      split at h
      · cases h
      rename_i hne
      cases h
      obtain ⟨hreported, hall⟩ := hout.errors errors herrors
      refine ⟨hne, fun e he => ?_, hsaved.forall₂ fun row hrow => ?_⟩
      · obtain ⟨hsome, hfields⟩ := readForm_errors (hreported e he).2.2
        refine ⟨hsome, fun p hp => ?_⟩
        obtain ⟨f, hf, hname, hparse⟩ := hfields p hp
        obtain ⟨hf, hchosen⟩ := List.mem_filter.mp hf
        rw [Bool.and_eq_true] at hchosen
        obtain ⟨s, hs⟩ := Option.isSome_iff_exists.mp hchosen.2
        refine ⟨f, hf, hname, s, (text_eq hpage hedits ..).symm.trans hs, hs ▸ hparse⟩
      · split
        · rename_i hkey
          obtain ⟨e, he, hhas⟩ := hkey
          refine saveRow_of_unsaved fun k hk hmem => (hreported e he).2.1 ?_
          rw [has_unique hhas hk]
          exact hmem
        · rename_i hkey
          refine holds_saveRow hpage hedits hread hrow fun pk hpk hmem => ?_
          refine (hall pk (mem_keysOf.mpr hmem)).resolve_right fun hlisted => ?_
          obtain ⟨e, he, rfl⟩ := List.mem_map.mp hlisted
          exact hkey ⟨e, he, hpk⟩

/-- The registration refuses booleans that can be edited. -/
theorem not_boolean_of_editable {f : FieldMeta} (hf : f ∈ r.admin.info.fields) (heditable : f.name ∈ r.editable) :
    f.kind ≠ .boolean := by
  obtain ⟨hadmin, -⟩ := authorize_eq_ok.mp (r.authorized req.form)
  obtain ⟨g, hg, hname, hkind⟩ := (site.registered _ (findAdmin_mem hadmin)).list_editable f.name heditable
  obtain rfl := List.inj_on_of_nodup_map (List.nodup_append.mp r.admin.names_nodup).1 hg hf hname
  intro hboolean
  rw [hboolean] at hkind
  simp at hkind

variable [LawfulTexts]

/-- The inputs of a page whose texts are read as what is stored change nothing. -/
theorem untouched_of_readsBack (h : r.ReadsBack) :
    (postEdits S site req w (editInputs r.admin r.page)).1.tables = w.tables := by
  have hpage : r.OfPage (editInputs r.admin r.page) := fun p hp _ => List.mem_map_of_mem hp
  cases hedits : edits r.editable (editInputs r.admin r.page) with
  | error e => rw [post_error hedits]
  | ok edited =>
    obtain ⟨now, hsaved, hout⟩ := post_cases hpage hedits
    rw [hsaved.tables]
    refine (congrArg _ ((List.map_congr_left fun row hrow => ?_).trans (List.map_id' _))).trans (Function.update_eq_self ..)
    by_cases hin : ∃ k ∈ now, r.inScope row k = true
    · obtain ⟨k, hk, hscope⟩ := hin
      obtain ⟨vs, hvs⟩ := ((hout.readable k hk).resolve_left List.not_mem_nil).2
      have hvalues : r.values edited k = vs := by rw [ShownList.values, hvs]
      obtain ⟨hnames, hmembers⟩ := readForm_members List.filter_sublist (List.nil_sublist _) hvs
      rw [saveRow_of_inScope hscope hk, hvalues]
      refine Row.setAll_eq_self (r.once row hrow) fun cell hcell old hold => ?_
      obtain ⟨p, hp, rfl⟩ := List.mem_map.mp hcell
      -- The field of the cell has been read from the text that is shown for it.
      have hname := List.mem_map_of_mem (f := Prod.fst) hp
      rw [readForm_names hvs, List.map_nil, List.append_nil] at hname
      obtain ⟨f, hf, hname⟩ := List.mem_map.mp hname
      obtain ⟨v, hv, hparse⟩ := readForm_field hvs hnames hf
      obtain ⟨hf, hchosen⟩ := List.mem_filter.mp hf
      rw [Bool.and_eq_true, Bool.not_eq_true'] at hchosen
      obtain ⟨s, hs⟩ := Option.isSome_iff_exists.mp hchosen.2
      rw [hname] at hv
      cases (List.lookup_of_mem hnames hp).symm.trans hv
      rw [hs] at hparse
      rw [text_eq hpage hedits] at hs
      obtain ⟨row', hrow', values, hread, pk, -, -, hpk, hscope', hshown, column, hcolumn, hinput⟩ :=
        mem_editInputs (List.mem_reverse.mp (List.mem_of_lookup hs))
      obtain ⟨hcell, rfl⟩ := Prod.mk.inj hinput
      obtain ⟨rfl, rfl⟩ := editName_inj.mp hcell
      obtain rfl := r.keys.eq hrow' hrow (has_of_inScope hscope') (has_of_inScope hscope)
      obtain ⟨hcomputed, v', hv', hstored, hprinted⟩ := h row' hrow values hread k hpk hshown f hf hchosen.1 hcolumn
      have htext : submitted f v' = some (cellText r.admin values f.name) := by
        rw [submitted, if_neg (not_boolean_of_editable hf hcolumn), cellText, hcomputed]
        dsimp only
        rw [ModelAdmin.shown, hv']
        rfl
      have hback := (printed_iff.mpr ⟨hprinted, rfl⟩).1
      rw [htext, hparse] at hback
      obtain rfl := Except.ok.inj (Option.some.inj hback)
      have hcolumn : (fieldToCol r.admin.info f.name).name = f.columnName := ModelAdmin.column_field hf
      have hold : row'.lookup (fieldToCol r.admin.info p.1).name = some old := hold
      rw [← hname, hcolumn, hstored, hname] at hold
      exact (Option.some.inj hold).symm
    · rw [saveRow_of_not_inScope fun k hk => Bool.eq_false_of_not_eq_true fun hscope => hin ⟨k, hk, hscope⟩]

end Inputs

end ShownList

section Changelists
variable [Fmt] [Rest.Parse] [LawfulTexts] [UnquotedNames] [CaseMap] [Calendar] {S : AdminServer} {site : Site}
  {req : AdminRequest} {w : World}

/-- Each row of a changelist is saved or reported by itself, and texts that are read as what is stored change nothing. -/
theorem changelist_saved (r : ShownList S site req w) : (∀ pairs, r.OfPage pairs → r.RowByRow pairs) ∧
    (r.ReadsBack → (postEdits S site req w (editInputs r.admin r.page)).1.tables = w.tables) :=
  ⟨fun _ => ShownList.rowByRow_of_ofPage, ShownList.untouched_of_readsBack⟩

end Changelists

/-! ### Two grades -/

section Grades

attribute [local instance] CaseMap.ascii Fmt.decimal decimalTexts lawfulTexts_decimal verbatim noDays

def gradeMembers : List Member :=
  [.field { ident := "id", columnName := "id", type := .i64, primaryKey := true, auto := true },
    .field { ident := "points", columnName := "points", type := .i64 }]

theorem gradeMembers_idents : (gradeMembers.map Member.ident).Nodup := by decide

theorem gradeMembers_columns : (gradeMembers.map Member.columnName).Nodup := by decide

def gradeModel : DerivedModel where
  structName := "Grade"
  appLabel := "school"
  tableName := "school_grade"
  members := gradeMembers
  idents_nodup := gradeMembers_idents
  columns_nodup := gradeMembers_columns
  one_pk := ⟨_, rfl⟩

theorem gradeMeta_names : (memberNames gradeModel.info).Nodup ∧
    (gradeModel.info.fields.map (·.columnName) ++ gradeModel.info.relations.map (·.fieldName)).Nodup ∧
      ∀ name ∈ memberNames gradeModel.info, splitFieldLookup name = (name, "eq") := by
  refine ⟨?_, ?_, ?_⟩ <;> decide

/-- The points of a grade are edited on the changelist. -/
def gradeAdmin : ModelAdmin where
  info := gradeModel.info
  pk := pageKey
  primary := rfl
  objects := {}
  fieldNames := ["id", "points"]
  fieldValues row := (gradeModel.fromRow plainGet noTexts row).map (gradeModel.fieldValues noTexts)
  config := { listEditable := some ["points"] }
  names_nodup := gradeMeta_names.1
  columns_nodup := gradeMeta_names.2.1
  names_plain := gradeMeta_names.2.2

def gradePoints : FieldMeta := { name := "points", columnName := "points", kind := .bigInt }

theorem gradeAdmin_registered : ∀ admin ∈ [gradeAdmin], Registered [gradeModel.info] admin := by
  simp only [List.mem_singleton, forall_eq]
  constructor
  case list_editable =>
    intro name hname
    exact ⟨gradePoints, List.mem_cons_of_mem pageKey (List.mem_singleton_self _), (List.mem_singleton.mp hname).symm,
      by simp [gradePoints]⟩
  all_goals simp [gradeAdmin]

def gradeSite : Site where
  admins := [gradeAdmin]
  tenantScope := none
  models := [gradeModel.info]
  target _ := gradeModel.info
  permissions := notePermissions
  iterate keys := keys
  iterate_perm _ := .refl _
  registered := gradeAdmin_registered
  tables_nodup := List.nodup_singleton _

def gradeRequest : AdminRequest where
  auth := .ok ⟨1, true, true⟩
  app := "school"
  model := "grade"
  pk := none
  query _ := none
  form := .ok []

/-- A server that takes each key of a grade once. -/
def gradeServer : AdminServer where
  toServer := { plainServer with
    refuses := fun _ after =>
      if ((after "school_grade").map (·.lookup "id")).Nodup then none else some "duplicate key" }
  datePart _ _ := none
  text _ := none
  refusesLog _ := none
  equal_i64 := plainAdminServer.equal_i64
  equal_unique := plainAdminServer.equal_unique
  complete_given _ _ _ _ _ h := h

def gradeRow (id points : Int) : Row Cell := [("id", .i64 id), ("points", .i64 points)]

def grades : World := ⟨Function.update (fun _ => []) "school_grade" [gradeRow 1 5, gradeRow 2 6], [], []⟩

def gradePage : ChangelistPage := ⟨["id", "points"], [["1", "5"], ["2", "6"]], ["1", "2"], 2, 1, 100⟩

theorem grades_shown : (adminChangelist gradeSite gradeRequest).eval (AdminCall.exec gradeServer) grades =
    (grades, .ok (.changelist gradePage [] true true true)) := rfl

theorem mem_grades {row : Row Cell} (h : row ∈ grades.tables gradeAdmin.info.tableName) :
    row = gradeRow 1 5 ∨ row = gradeRow 2 6 := by
  simpa [grades, gradeAdmin, gradeModel, DerivedModel.info] using h

theorem keysDistinct_of_nodup {db : Tables Cell} (h : ((db "school_grade").map (·.lookup "id")).Nodup) :
    KeysDistinct gradeServer gradeAdmin db := by
  refine (List.pairwise_map.mp h).imp fun {a b} hne n hn => hne ?_
  exact (plain_has.mp hn.1).trans (plain_has.mp hn.2).symm

theorem grades_enforced (before after : Tables Cell) (h : gradeServer.refuses before after = none) :
    KeysDistinct gradeServer gradeAdmin after := by
  by_contra hnot
  have hnodup : ¬((after "school_grade").map (·.lookup "id")).Nodup := fun hnodup => hnot (keysDistinct_of_nodup hnodup)
  have hrefused : gradeServer.refuses before after = some "duplicate key" := if_neg hnodup
  rw [hrefused] at h
  cases h

/-- The changelist of two grades. -/
def gradeList : ShownList gradeServer gradeSite gradeRequest grades where
  access := ⟨gradeAdmin, ⟨1, true, true⟩, none⟩
  page := gradePage
  authorized _ := rfl
  shown := ⟨_, _, _, _, grades_shown⟩
  alone _ _ _ := rfl
  once row h := by
    rcases mem_grades h with rfl | rfl <;> simp [gradeRow]
  keys := keysDistinct_of_nodup (by decide)
  enforced := grades_enforced
  keyed row h values hread := by
    rcases mem_grades h with rfl | rfl
    · cases hread
      exact ⟨1, by decide, by decide, rfl, rfl⟩
    · cases hread
      exact ⟨2, by decide, by decide, rfl, rfl⟩
  tenant _ h := absurd h List.not_mem_nil
  describes := describes_of_derived rfl rfl fun _ => rfl

/-- Two grades are saved as they are submitted, and as they are where nothing is edited. -/
theorem grades_saved : gradeList.RowByRow [("edit-1-points", "7"), ("edit-2-points", "8")] ∧
    (postEdits gradeServer gradeSite gradeRequest grades (editInputs gradeAdmin gradePage)).1.tables = grades.tables := by
  refine ⟨(changelist_saved gradeList).1 _ fun p hp _ => ?_, (changelist_saved gradeList).2 fun row hrow values hread pk hpk _ => ?_⟩
  · have hinputs : (editInputs gradeAdmin gradePage).map (·.1) = ["edit-1-points", "edit-2-points"] := rfl
    rcases List.mem_cons.mp hp with rfl | hp
    · exact hinputs ▸ List.mem_cons_self
    · obtain rfl := List.mem_singleton.mp hp
      exact hinputs ▸ List.mem_cons_of_mem _ List.mem_cons_self
  · intro f hf hauto _
    have hf : f ∈ [pageKey, gradePoints] := hf
    obtain rfl | rfl : f = pageKey ∨ f = gradePoints := by simpa using hf
    · cases hauto
    · refine ⟨rfl, ?_⟩
      rcases mem_grades hrow with rfl | rfl
      · cases hread
        exact ⟨.i64 5, rfl, rfl, 5, rfl, by decide, by decide⟩
      · cases hread
        exact ⟨.i64 6, rfl, rfl, 6, rfl, by decide, by decide⟩

/-- A grade that cannot be read is reported, and the other one is changed all the same. -/
theorem grade_changed_beside_error : ∃ errors,
    (postEdits gradeServer gradeSite gradeRequest grades [("edit-1-points", "x"), ("edit-2-points", "8")]).2 =
        .ok (.changelistErrors errors) ∧
      (postEdits gradeServer gradeSite gradeRequest grades [("edit-1-points", "x"), ("edit-2-points", "8")]).1.tables
        "school_grade" ≠ grades.tables "school_grade" := by
  refine ⟨[(1, [("points", "Field 'points' must be a valid integer.")])], rfl, fun h => ?_⟩
  have hstored : (postEdits gradeServer gradeSite gradeRequest grades
      [("edit-1-points", "x"), ("edit-2-points", "8")]).1.tables "school_grade" = [gradeRow 1 5, gradeRow 2 8] := rfl
  rw [hstored] at h
  cases h

end Grades

end Djangors.Admin
