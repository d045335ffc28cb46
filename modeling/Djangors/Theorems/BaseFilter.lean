import Djangors.Theorems.TenantBreaches

/-! # The base filter

The lists and the export are narrowed by the base filter of a model admin; what goes by a key is not. -/

namespace Djangors.Admin
open Db Http Orm Sql

/-- The methods of a model admin that reach rows, and the handler of its built-in action. -/
inductive AdminOperation where
  | changelist (order : Option String) (page perPage : Int) (search : Option String) (filters : List (String × Bool))
      (dateRange : Option (DateTime × DateTime))
  | exportCsvRows (order search : Option String) (filters : List (String × Bool)) (dateRange : Option (DateTime × DateTime))
  | getByPk (pk : Int)
  | updateFromForm (pk : Int) (form : FormData)
  | updateFieldsFromForm (pk : Int) (form : FormData)
  | deleteByPk (pk : Int)
  | deleteSelected (pks : List Int)

/-- The row that an effect changes or deletes. -/
def Effect.target : Effect → Option (Row Cell)
  | .inserted _ _ => none
  | .changed _ before _ => some before
  | .deleted _ r => some r

namespace AdminOperation
variable [Fmt] [Rest.Parse] [UnquotedNames] (admin : ModelAdmin) (tenant : TenantFilter)

def perform : AdminOperation → Handler Unit
  | changelist order page perPage search filters dateRange => do
    let _ ← admin.changelist order page perPage search filters dateRange tenant
    return ()
  | exportCsvRows order search filters dateRange => do
    let _ ← admin.exportCsvRows order search filters dateRange tenant
    return ()
  | getByPk pk => do
    let _ ← admin.getByPk pk tenant
    return ()
  | updateFromForm pk form => do
    let _ ← admin.updateFromForm pk form tenant
    return ()
  | updateFieldsFromForm pk form => do
    let _ ← admin.updateFieldsFromForm pk form tenant
    return ()
  | deleteByPk pk => do
    let _ ← admin.deleteByPk pk tenant
    return ()
  | deleteSelected pks => admin.deleteSelected pks

/-- Whether the rows that are read are returned. -/
def returnsRows : AdminOperation → Bool
  | changelist .. | exportCsvRows .. | getByPk _ => true
  | _ => false

end AdminOperation

section Bounds
variable [Fmt] [UnquotedNames] (admin : ModelAdmin) (b : UnresolvedExpr) (S : AdminServer)

/-- A row satisfies a filter. One that does not resolve is satisfied by none. -/
def Meets (db : Tables Cell) (r : Row Cell) : Prop :=
  ∃ e, resolveExpr admin.info b = .ok e ∧ ({ filters := [e] } : QuerySet admin.info).keeps S.toServer db r = true

/-- What a call of an operation returns, changes or deletes are rows that satisfied the filter at the start. -/
def Within (db : Tables Cell) (op : AdminOperation) : AdminCall → World → Prop
  | .all _ qs, w => op.returnsRows = true → ∀ rows items, S.fetch w.tables (qs.select S.dialect) = .ok rows →
    rows.mapM admin.fieldValues = .ok items → ∀ r ∈ rows, Meets admin b S db r
  | call, w => ∀ effect ∈ (call.exec S w).1.history.drop w.history.length, ∀ r ∈ effect.target, Meets admin b S db r

variable [Rest.Parse]

/-- An operation returns, changes and deletes rows that satisfy the filter. -/
def Bounded (tenant : TenantFilter) (op : AdminOperation) (w : World) : Prop :=
  (op.perform admin tenant).Always (AdminCall.exec S) (Within admin b S w.tables op) w

/-- The rows that an operation reaches by their keys satisfy the filter, unless it stores what they have. -/
def BoundedWhen (tenant : TenantFilter) (w : World) : AdminOperation → Prop
  | .changelist .. | .exportCsvRows .. => True
  | .getByPk pk => ∀ r ∈ w.tables admin.info.tableName, InScope S w.tables admin pk tenant r → Meets admin b S w.tables r
  | .updateFromForm pk form => ∀ values,
    readForm (changeFields admin) admin.info.relations form = some (.ok values) → ∀ r ∈ w.tables admin.info.tableName,
      InScope S w.tables admin pk tenant r → r.setAll (storedCells admin.info values) ≠ r → Meets admin b S w.tables r
  | .updateFieldsFromForm pk form => ∀ values,
    readForm (rowFields admin form) [] form = some (.ok values) → ∀ r ∈ w.tables admin.info.tableName,
      InScope S w.tables admin pk tenant r → r.setAll (storedCells admin.info values) ≠ r → Meets admin b S w.tables r
  | .deleteByPk pk => (tenant.isSome → ∃ r ∈ w.tables admin.info.tableName, InScope S w.tables admin pk tenant r) →
    ∀ r ∈ w.tables admin.info.tableName, S.has admin.pk.columnName pk r = true → Meets admin b S w.tables r
  | .deleteSelected pks => ∀ pk ∈ pks, ∀ r ∈ w.tables admin.info.tableName,
    S.has admin.pk.columnName pk r = true → Meets admin b S w.tables r

end Bounds

/-! ### Lists -/

section Lists
variable [Fmt] {admin : ModelAdmin} {b : UnresolvedExpr} {S : AdminServer} {db : Tables Cell} {r : Row Cell}

theorem narrow_extends {qs qs' : QuerySet admin.info} {calls : List Narrow} (h : qs.narrow calls = .ok qs') :
    ∃ after, qs'.filters = qs.filters ++ after := by
  induction calls generalizing qs with
  | nil =>
    cases h
    exact ⟨[], (List.append_nil _).symm⟩
  | cons call calls ih =>
    obtain ⟨qs₁, hcall, h⟩ := Except.bind_eq_ok.mp h
    obtain ⟨after, hafter⟩ := ih h
    rcases Narrow.apply_cases hcall with ⟨-, e, rfl⟩ | ⟨-, sc, rfl⟩
    · exact ⟨e :: after, by rw [hafter, List.append_assoc, List.singleton_append]⟩
    · exact ⟨after, hafter⟩

/-- A call of `filter` adds its expression. -/
theorem narrow_filters {qs qs' : QuerySet admin.info} {calls : List Narrow} (h : qs.narrow calls = .ok qs')
    (hmem : .filter b ∈ calls) : ∃ e before after, resolveExpr admin.info b = .ok e ∧
      qs'.filters = before ++ e :: after := by
  induction calls generalizing qs with
  | nil => cases hmem
  | cons call calls ih =>
    obtain ⟨qs₁, hcall, h⟩ := Except.bind_eq_ok.mp h
    rcases List.mem_cons.mp hmem with rfl | hmem
    · obtain ⟨e, he, hcall⟩ := Except.bind_eq_ok.mp hcall
      obtain rfl := Except.ok.inj hcall
      obtain ⟨after, hafter⟩ := narrow_extends h
      exact ⟨e, qs.filters, after, he, by rw [hafter, List.append_assoc, List.singleton_append]⟩
    · exact ih h hmem

/-- A query set with a filter keeps rows that satisfy it. -/
theorem keeps_filter {qs : QuerySet admin.info} {e : Expr} {before after : List Expr} (h : qs.filters = before ++ e :: after)
    (hkeeps : qs.keeps S.toServer db r = true) : ({ filters := [e] } : QuerySet admin.info).keeps S.toServer db r = true := by
  have hfilters : qs.boundFilters S.dialect =
      QuerySet.boundFilters ({ filters := (before ++ [e]) ++ after } : QuerySet admin.info) S.dialect := by
    rw [QuerySet.boundFilters, QuerySet.boundFilters, QuerySet.compileFilters, QuerySet.compileFilters, h,
      List.append_assoc, List.singleton_append]
  have hsplit := QuerySet.boundFilters_append S.dialect ({ filters := before ++ [e] } : QuerySet admin.info) after
  have hsplit' := QuerySet.boundFilters_append S.dialect ({ filters := before } : QuerySet admin.info) [e]
  rw [QuerySet.keeps, hfilters, hsplit, hsplit', List.all_append, List.all_append, Bool.and_eq_true, Bool.and_eq_true] at hkeeps
  exact hkeeps.1.2

variable {order search : Option String} {filters : List (String × Bool)} {dateRange : Option (DateTime × DateTime)}
  {tenant : TenantFilter} {qs : QuerySet admin.info}

/-- The rows of a list satisfy the base filter. -/
theorem meets_of_filtered (hbase : admin.config.baseFilter = some b)
    (hqs : admin.buildFilteredQueryset order search filters dateRange tenant = .ok qs)
    (hkeeps : qs.keeps S.toServer db r = true) : Meets admin b S db r := by
  obtain ⟨qs₀, -, hqs⟩ := Except.bind_eq_ok.mp hqs
  have hnarrow : qs₀.narrow (admin.narrowings search filters dateRange tenant) = .ok qs := Rest.internal_eq_ok.mp hqs
  have hmem : .filter b ∈ admin.narrowings search filters dateRange tenant := by
    simp [ModelAdmin.narrowings, hbase]
  obtain ⟨e, before, after, he, hfilters⟩ := narrow_filters hnarrow hmem
  exact ⟨e, he, keeps_filter hfilters hkeeps⟩

end Lists

/-! ### What is reached -/

section Reached
variable [Fmt] [UnquotedNames] {admin : ModelAdmin} {b : UnresolvedExpr} {S : AdminServer} {db : Tables Cell} {w : World}
  {op : AdminOperation} {tenant : TenantFilter} {pk : Int}

theorem within_quiet {call : AdminCall} (hquiet : call.quiet = true) (hall : ∀ m qs, call ≠ .all m qs) :
    Within admin b S db op call w := by
  have hsame : ∀ effect ∈ (call.exec S w).1.history.drop w.history.length, ∀ r ∈ effect.target, Meets admin b S db r := by
    rw [(exec_quiet hquiet).2, List.drop_length]
    exact fun _ h => by cases h
  cases call with
  | all m qs => exact absurd rfl (hall m qs)
  | count | countWhere | dateParts | children | saveLog => exact hsame
  | update | delete | insertRaw | deleteByPk => cases hquiet

/-- A program that only reads returns no row that is not shown. -/
theorem within_reads (hop : op.returnsRows = false) {call : AdminCall} (h : call.reads = true) : Within admin b S db op call w := by
  cases call with
  | all m qs => exact fun hreturns => by rw [hop] at hreturns; cases hreturns
  | count | countWhere | dateParts | children => exact within_quiet rfl fun _ _ h => by cases h
  | update | delete | insertRaw | deleteByPk | saveLog => cases h

theorem within_all {qs : QuerySet admin.info} (h : ∀ r ∈ w.tables admin.info.tableName,
    qs.keeps S.toServer w.tables r = true → Meets admin b S db r) : Within admin b S db op (.all _ qs) w := by
  intro _ rows items hrows _ r hr
  obtain ⟨hmem, hselects⟩ := fetch_mem hrows hr
  exact h r hmem (keeps_of_selects hselects)

/-- What a write adds to the history are its effects. -/
theorem write_history {α : Type} {result : Except Stop (Tables Cell × List Effect × α)} {effect : Effect}
    (h : effect ∈ (w.write result).1.history.drop w.history.length) :
    ∃ after effects a, result = .ok (after, effects, a) ∧ effect ∈ effects := by
  cases result with
  | error e =>
    rw [World.write, List.drop_length] at h
    cases h
  | ok result =>
    obtain ⟨after, effects, a⟩ := result
    refine ⟨after, effects, a, rfl, ?_⟩
    simpa [World.write] using h

theorem mem_changes {m : ModelMeta} {rows : List (Row Cell)} {f : Row Cell → Row Cell} {effect : Effect} :
    effect ∈ changes m rows (rows.map f) ↔ ∃ r ∈ rows, f r ≠ r ∧ effect = .changed m r (f r) := by
  have hzip : rows.zip (rows.map f) = rows.map fun r => (r, f r) := by
    have hmap := List.zip_map' (f := id) (g := f) (l := rows)
    rwa [List.map_id] at hmap
  rw [changes, hzip, List.filter_map, List.map_map, List.mem_map]
  constructor
  · rintro ⟨r, hr, rfl⟩
    obtain ⟨hmem, hne⟩ := List.mem_filter.mp hr
    exact ⟨r, hmem, Ne.symm (of_decide_eq_true hne), rfl⟩
  · rintro ⟨r, hr, hne, rfl⟩
    exact ⟨r, List.mem_filter.mpr ⟨hr, decide_eq_true (Ne.symm hne)⟩, rfl⟩

theorem within_update {values : List (String × Value)} {qs : QuerySet admin.info} (h : ∀ r ∈ w.tables admin.info.tableName,
    qs.keeps S.toServer w.tables r = true → r.setAll (storedCells admin.info values) ≠ r → Meets admin b S db r) :
    Within admin b S db op (.update _ qs (literals values)) w := by
  intro effect heffect r hr
  obtain ⟨after, effects, n, hrun, heffect⟩ := write_history heffect
  obtain ⟨rfl, rfl⟩ := runUpdate_eq_ok hrun
  obtain ⟨row, hrow, hchanged, rfl⟩ := mem_changes.mp heffect
  cases hr
  rw [assigned] at hchanged
  split at hchanged
  · rename_i hkeeps
    exact h r hrow hkeeps hchanged
  · exact absurd rfl hchanged

theorem within_deleteByPk (h : ∀ r ∈ w.tables admin.info.tableName, S.has admin.pk.columnName pk r = true →
    Meets admin b S db r) : Within admin b S db op (.deleteByPk admin.info pk) w := by
  intro effect heffect r hr
  obtain ⟨after, effects, n, hrun, heffect⟩ := write_history heffect
  obtain ⟨rfl, rfl, -⟩ := runDeleteByPk_eq_ok hrun
  obtain ⟨row, hrow, rfl⟩ := List.mem_map.mp heffect
  cases hr
  obtain ⟨hmem, hhas⟩ := List.mem_filter.mp hrow
  exact h r hmem hhas

variable [Rest.Parse]

theorem within_updateTo {values : List (String × Value)} (hop : op.returnsRows = false)
    (h : ∀ r ∈ w.tables admin.info.tableName, InScope S w.tables admin pk tenant r →
      r.setAll (storedCells admin.info values) ≠ r → Meets admin b S db r) :
    (admin.updateTo pk tenant values).Always (AdminCall.exec S) (Within admin b S db op) w :=
  always_orFail.mpr fun qs hqs =>
    always_ask.mpr ⟨within_update fun r hr hkeeps => h r hr ⟨qs, hqs, hkeeps⟩, fun _ _ => trivial⟩

/-- By induction on the keys: what is left of the table were rows at the start. -/
theorem within_deleteSelected {pks : List Int} (hleft : ∀ r ∈ w.tables admin.info.tableName, r ∈ db admin.info.tableName)
    (h : ∀ pk ∈ pks, ∀ r ∈ db admin.info.tableName, S.has admin.pk.columnName pk r = true → Meets admin b S db r) :
    (admin.deleteSelected pks).Always (AdminCall.exec S) (Within admin b S db op) w := by
  induction pks generalizing w with
  | nil => trivial
  | cons pk pks ih =>
    have hleft' : ∀ r ∈ ((AdminCall.deleteByPk admin.info pk).exec S w).1.tables admin.info.tableName,
        r ∈ db admin.info.tableName := by
      rw [AdminCall.exec]
      cases hrun : (QuerySet.deleteByPk admin.info pk).bind (AdminCall.runDelete S w.tables admin.info) with
      | error e => exact hleft
      | ok result =>
        obtain ⟨after, effects, n⟩ := result
        obtain ⟨rfl, -, -⟩ := runDeleteByPk_eq_ok hrun
        intro r hr
        simp only [World.write, Function.update_self] at hr
        exact hleft r (List.mem_of_mem_filter hr)
    have hrest := ih hleft' fun k hk => h k (by simp [hk])
    exact always_attempt.mpr ⟨within_deleteByPk fun r hr => h pk (by simp) r (hleft r hr), fun _ _ => hrest, fun _ _ => hrest⟩

/-- An operation keeps to the base filter when the rows with its keys do. -/
theorem bounded_of_boundedWhen (hbase : admin.config.baseFilter = some b) (h : BoundedWhen admin b S tenant w op) :
    Bounded admin b S tenant op w := by
  cases op with
  | changelist order page perPage search filters dateRange =>
    refine Fallible.always_bind.mpr ⟨always_orFail.mpr fun qs hqs => ?_, fun _ _ => trivial⟩
    refine always_ask.mpr ⟨within_quiet rfl fun _ _ h => (by cases h), fun total _ => always_ask.mpr ⟨?_, fun rows _ => ?_⟩⟩
    · exact within_all fun r _ hkeeps => meets_of_filtered hbase hqs hkeeps
    · exact always_orFail.mpr fun _ _ => trivial
  | exportCsvRows order search filters dateRange =>
    refine Fallible.always_bind.mpr ⟨always_orFail.mpr fun qs hqs => ?_, fun _ _ => trivial⟩
    refine always_ask.mpr ⟨within_all fun r _ hkeeps => meets_of_filtered hbase hqs hkeeps, fun rows _ => ?_⟩
    exact always_orFail.mpr fun _ _ => trivial
  | getByPk pk =>
    refine Fallible.always_bind.mpr ⟨always_orFail.mpr fun qs hqs => ?_, fun _ _ => trivial⟩
    refine always_ask.mpr ⟨within_all fun r hr hkeeps => h r hr ⟨qs, hqs, hkeeps⟩, fun rows _ => ?_⟩
    refine always_orFail.mpr fun items _ => ?_
    rcases items with _ | ⟨_, _ | _⟩ <;> trivial
  | updateFromForm pk form =>
    refine Fallible.always_bind.mpr ⟨always_orPanic.mpr fun result hresult => ?_, fun _ _ => trivial⟩
    cases result with
    | error errors => trivial
    | ok values => exact within_updateTo rfl (h values hresult)
  | updateFieldsFromForm pk form =>
    refine Fallible.always_bind.mpr ⟨always_orPanic.mpr fun result hresult => ?_, fun _ _ => trivial⟩
    rcases result with errors | _ | ⟨value, values⟩
    · trivial
    · trivial
    · exact within_updateTo rfl (h _ hresult)
  | deleteByPk pk =>
    refine Fallible.always_bind.mpr ⟨always_deleteByPk (fun _ _ => within_reads rfl) fun hrow => ?_, fun _ _ => trivial⟩
    exact within_deleteByPk (h hrow)
  | deleteSelected pks => exact within_deleteSelected (fun _ hr => hr) h

end Reached

/-! ### What is reached on an open server -/

/-- The server takes every write, the manager is the plain one, and every row can be read. -/
structure Open (S : AdminServer) (admin : ModelAdmin) (tenant : TenantFilter) (w : World) : Prop where
  accepts : ∀ before after, S.refuses before after = none
  objects : admin.objects = {}
  readable : ∀ r ∈ w.tables admin.info.tableName, ∃ values, admin.fieldValues r = .ok values
  tenant : ∀ p ∈ tenant.toList, p.1 ∈ memberNames admin.info
  keys : KeysDistinct S admin w.tables

section Open
variable [Fmt] [UnquotedNames] {admin : ModelAdmin} {b : UnresolvedExpr} {S : AdminServer} {db : Tables Cell} {w : World}
  {op : AdminOperation} {tenant : TenantFilter} {pk : Int} {r : Row Cell}

theorem Open.scope (h : Open S admin tenant w) (pk : Int) : (scopedTo admin pk tenant).searchCondition = none ∧
    (scopedTo admin pk tenant).offset = none := by
  rw [scopedTo, h.objects]
  exact ⟨rfl, rfl⟩

/-- A row in the scope of a key is the only one. -/
theorem Open.filter_scope (h : Open S admin tenant w) (hr : r ∈ w.tables admin.info.tableName)
    (hscope : (scopedTo admin pk tenant).keeps S.toServer w.tables r = true) :
    (w.tables admin.info.tableName).filter ((scopedTo admin pk tenant).keeps S.toServer w.tables) = [r] := by
  have hkey : ∀ row ∈ (w.tables admin.info.tableName).filter ((scopedTo admin pk tenant).keeps S.toServer w.tables),
      S.has admin.pk.columnName pk row = true := by
    intro row hrow
    have hkeeps := (List.mem_filter.mp hrow).2
    rw [keeps_scopedTo _ _ h.tenant, Bool.and_eq_true, Bool.and_eq_true] at hkeeps
    exact hkeeps.2.1
  have hmem := List.mem_filter.mpr ⟨hr, hscope⟩
  have hdistinct := List.Pairwise.filter ((scopedTo admin pk tenant).keeps S.toServer w.tables) h.keys
  match hrows : (w.tables admin.info.tableName).filter ((scopedTo admin pk tenant).keeps S.toServer w.tables) with
  | [] => rw [hrows] at hmem; cases hmem
  | [row] =>
    rw [hrows, List.mem_singleton] at hmem
    rw [hmem]
  | row :: row' :: rest =>
    rw [hrows] at hdistinct hkey
    exact absurd ⟨hkey row (by simp), hkey row' (by simp)⟩ ((List.pairwise_cons.mp hdistinct).1 row' (by simp) pk)

/-- What an update in the scope of a key has to satisfy. -/
theorem meets_of_within_update {values : List (String × Value)} {qs : QuerySet admin.info} (hopen : Open S admin tenant w)
    (hmembers : ∀ p ∈ values, p.1 ∈ memberNames admin.info) (hr : r ∈ w.tables admin.info.tableName)
    (hkeeps : qs.keeps S.toServer w.tables r = true) (hchanged : r.setAll (storedCells admin.info values) ≠ r)
    (h : Within admin b S db op (.update _ qs (literals values)) w) : Meets admin b S db r := by
  have hvalues : values ≠ [] := by
    rintro rfl
    exact hchanged rfl
  obtain ⟨n, hrun⟩ := runUpdate_of_accepts S w.tables qs hmembers hvalues hopen.accepts
  have hassigned : assigned S w.tables qs values r = r.setAll (storedCells admin.info values) := if_pos hkeeps
  refine h (.changed admin.info r (assigned S w.tables qs values r)) ?_ r rfl
  rw [AdminCall.exec, hrun, World.write, List.drop_left]
  exact mem_changes.mpr ⟨r, hr, hassigned ▸ hchanged, rfl⟩

theorem meets_of_within_delete (hopen : Open S admin tenant w) (hr : r ∈ w.tables admin.info.tableName)
    (hhas : S.has admin.pk.columnName pk r = true) (h : Within admin b S db op (.deleteByPk admin.info pk) w) :
    Meets admin b S db r := by
  obtain ⟨n, hrun⟩ := runDeleteByPk_of_accepts w.tables admin pk hopen.accepts
  refine h (.deleted admin.info r) ?_ r rfl
  rw [exec_deleteByPk_eq hrun, List.drop_left]
  exact List.mem_map_of_mem (List.mem_filter.mpr ⟨hr, hhas⟩)

/-- By induction on the keys: a row is there until its key comes. -/
theorem meets_of_within_deleteSelected {pks : List Int} (haccepts : ∀ before after, S.refuses before after = none)
    (hr : r ∈ w.tables admin.info.tableName) (hpk : pk ∈ pks) (hhas : S.has admin.pk.columnName pk r = true)
    (h : (admin.deleteSelected pks).Always (AdminCall.exec S) (Within admin b S db op) w) : Meets admin b S db r := by
  induction pks generalizing w with
  | nil => cases hpk
  | cons k pks ih =>
    obtain ⟨hdelete, hnext, -⟩ := always_attempt.mp h
    obtain ⟨n, hrun⟩ := runDeleteByPk_of_accepts w.tables admin k haccepts
    have hexec := exec_deleteByPk_eq hrun
    by_cases hk : S.has admin.pk.columnName k r = true
    · refine hdelete (.deleted admin.info r) ?_ r rfl
      rw [hexec, List.drop_left]
      exact List.mem_map_of_mem (List.mem_filter.mpr ⟨hr, hk⟩)
    · have hpk := (List.mem_cons.mp hpk).resolve_left fun heq => hk (heq ▸ hhas)
      refine ih ?_ hpk (hnext n (congrArg Prod.snd hexec))
      rw [hexec]
      simp only [Function.update_self, List.mem_filter]
      exact ⟨hr, by rw [Bool.not_eq_true] at hk; rw [hk]; rfl⟩

theorem Open.eval_isInTenant (h : Open S admin tenant w)
    (hrow : tenant.isSome → ∃ r ∈ w.tables admin.info.tableName, InScope S w.tables admin pk tenant r) :
    (admin.isInTenant pk tenant).eval (AdminCall.exec S) w = (w, .ok true) := by
  rw [ModelAdmin.isInTenant]
  split
  · rename_i hsome
    obtain ⟨r, hr, qs, hqs, hkeeps⟩ := hrow hsome
    obtain rfl := Except.ok.inj ((scopedPkQueryset_eq h.tenant).symm.trans hqs)
    have hfetch : S.fetch w.tables (((scopedTo admin pk tenant).withLimit 1).select S.dialect) = .ok [r] :=
      fetch_single 0 (h.filter_scope hr hkeeps) (h.scope pk).1 (h.scope pk).2 rfl
    obtain ⟨values, hvalues⟩ := h.readable r hr
    refine eval_orFail_eq_ok.mpr ⟨_, hqs, Fallible.eval_bind_eq_ok.mpr ⟨w, some values, ?_, rfl⟩⟩
    refine eval_ask_eq_ok.mpr ⟨[r], ?_, eval_orFail_eq_ok.mpr ⟨[values], ?_, rfl⟩⟩
    · rw [AdminCall.exec, hfetch]
      rfl
    · rw [List.mapM_cons, hvalues]
      rfl
  · rfl

variable [Rest.Parse]

theorem meets_of_updateTo {values : List (String × Value)} (hopen : Open S admin tenant w)
    (hmembers : ∀ p ∈ values, p.1 ∈ memberNames admin.info) (hr : r ∈ w.tables admin.info.tableName)
    (hscope : InScope S w.tables admin pk tenant r) (hchanged : r.setAll (storedCells admin.info values) ≠ r)
    (h : (admin.updateTo pk tenant values).Always (AdminCall.exec S) (Within admin b S db op) w) : Meets admin b S db r := by
  obtain ⟨qs, hqs, hkeeps⟩ := hscope
  exact meets_of_within_update hopen hmembers hr hkeeps hchanged (always_ask.mp (always_orFail.mp h qs hqs)).1

theorem boundedWhen_of_bounded (hopen : Open S admin tenant w) (h : Bounded admin b S tenant op w) :
    BoundedWhen admin b S tenant w op := by
  cases op with
  | changelist | exportCsvRows => trivial
  | getByPk pk =>
    rintro r hr ⟨qs, hqs, hkeeps⟩
    have hall := (always_ask.mp (always_orFail.mp (Fallible.always_bind.mp h).1 qs hqs)).1
    obtain rfl := Except.ok.inj ((scopedPkQueryset_eq hopen.tenant).symm.trans hqs)
    have hfetch : S.fetch w.tables (((scopedTo admin pk tenant).withLimit 2).select S.dialect) = .ok [r] :=
      fetch_single 1 (hopen.filter_scope hr hkeeps) (hopen.scope pk).1 (hopen.scope pk).2 rfl
    obtain ⟨values, hvalues⟩ := hopen.readable r hr
    exact hall rfl [r] [values] hfetch (by rw [List.mapM_cons, hvalues]; rfl) r (List.mem_singleton_self r)
  | updateFromForm pk form =>
    intro values hvalues r hr hscope hchanged
    have hupdate := always_orPanic.mp (Fallible.always_bind.mp h).1 _ hvalues
    exact meets_of_updateTo hopen (readForm_members List.filter_sublist (List.Sublist.refl _) hvalues).2 hr hscope hchanged hupdate
  | updateFieldsFromForm pk form =>
    intro values hvalues r hr hscope hchanged
    have hupdate := always_orPanic.mp (Fallible.always_bind.mp h).1 _ hvalues
    cases values with
    | nil => exact absurd rfl hchanged
    | cons value values =>
      exact meets_of_updateTo hopen (readForm_members List.filter_sublist (List.nil_sublist _) hvalues).2 hr hscope hchanged
        hupdate
  | deleteByPk pk =>
    intro hrow r hr hhas
    have htenant := hopen.eval_isInTenant hrow
    have hdelete := (Fallible.always_bind.mp (Fallible.always_bind.mp h).1).2 true (congrArg Prod.snd htenant)
    rw [htenant] at hdelete
    exact meets_of_within_delete hopen hr hhas (always_ask.mp hdelete).1
  | deleteSelected pks =>
    intro pk hpk r hr hhas
    exact meets_of_within_deleteSelected hopen.accepts hr hpk hhas h

end Open

/-! ### Notes that are not to be seen -/

section Notes
attribute [local instance] Fmt.decimal noNumbers verbatim

/-- Only notes with the title `public` are for the admin. -/
def publicOnly : UnresolvedExpr := .and [⟨"title", .text "public"⟩]

def publicNotes : ModelAdmin := { noteAdmin with config := { baseFilter := some publicOnly } }

/-- The note 7, with a title. -/
def noteSeven (title : String) : World :=
  onlyRow "notes_note" [("id", .i64 7), ("tenant_id", .i64 1), ("title", .text title)]

end Notes

end Djangors.Admin
