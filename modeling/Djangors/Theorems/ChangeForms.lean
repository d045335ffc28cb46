import Djangors.Orm.Derive
import Djangors.Theorems.FieldControls
import Djangors.Theorems.Terminals

/-! # Forms that nobody has touched

A form that is posted as it is shown saves the row as it is when every field comes back from its control. A listed field
has no control, but a text for it is taken all the same. -/

namespace Djangors.Admin
open Db Http Orm Sql
open Migrations (CaseMap)

/-! ### A row and its form -/

/-- The names and the values of a model are those of its columns, and a row that is read has them. -/
structure Describes (admin : ModelAdmin) : Prop where
  nodup : admin.fieldNames.Nodup
  mem_iff : ∀ name, name ∈ admin.fieldNames ↔ name ∈ memberNames admin.info ∧ admin.column name ∈ admin.info.columns
  names : ∀ row values, admin.fieldValues row = .ok values → values.map (·.1) = admin.fieldNames
  columns : ∀ row values, admin.fieldValues row = .ok values →
    ∀ name ∈ admin.fieldNames, (row.lookup (admin.column name)).isSome

theorem ModelAdmin.column_of_manyToMany {admin : ModelAdmin} {relation : RelationMeta} (hr : relation ∈ admin.info.relations)
    (hkind : relation.kind = .manyToMany) : admin.column relation.fieldName ∉ admin.info.columns := by
  obtain ⟨-, hrelations, hdisjoint⟩ := List.nodup_append.mp admin.columns_nodup
  rw [ModelAdmin.column_relation hr, ModelMeta.columns, List.mem_append, not_or]
  refine ⟨fun hmem => hdisjoint _ hmem _ (List.mem_map_of_mem hr) rfl, fun hmem => ?_⟩
  obtain ⟨other, hother, hname⟩ := List.mem_map.mp hmem
  obtain ⟨hother, hcolumn⟩ := List.mem_filter.mp hother
  obtain rfl := List.inj_on_of_nodup_map hrelations hother hr hname
  rw [hkind] at hcolumn
  cases hcolumn

section Derived
variable {ρ : Type} {G : TryGet} {T : TextTypes ρ} {M : DerivedModel} {admin : ModelAdmin}

theorem column_of_derived (hinfo : admin.info = M.info) {member : Member} (hmember : member ∈ M.modelFields) :
    member.ident ∈ memberNames admin.info ∧ admin.column member.ident = member.columnName ∧
      member.columnName ∈ admin.info.columns := by
  obtain ⟨hmember, hcolumn⟩ := List.mem_filter.mp hmember
  cases member with
  | field f =>
    have hf : f.info ∈ admin.info.fields := by
      rw [hinfo]
      exact List.mem_map_of_mem (List.mem_filterMap.mpr ⟨.field f, hmember, rfl⟩)
    exact ⟨ModelAdmin.mem_memberNames_of_field hf, ModelAdmin.column_field hf,
      List.mem_append_left _ (List.mem_map_of_mem (f := FieldMeta.columnName) hf)⟩
  | relation r =>
    have hr : r ∈ admin.info.relations := by
      rw [hinfo]
      exact List.mem_filterMap.mpr ⟨.relation r, hmember, rfl⟩
    exact ⟨List.mem_append_right _ (List.mem_map_of_mem hr), ModelAdmin.column_relation hr,
      List.mem_append_right _ (List.mem_map_of_mem (List.mem_filter.mpr ⟨hr, hcolumn⟩))⟩

/-- Derived models describe themselves so. -/
theorem describes_of_derived (hinfo : admin.info = M.info) (hnames : admin.fieldNames = M.modelFields.map Member.ident)
    (hvalues : ∀ row, admin.fieldValues row = (M.fromRow G T row).map (M.fieldValues T)) : Describes admin where
  nodup := by
    rw [hnames]
    exact M.idents_nodup.sublist (List.filter_sublist.map _)
  mem_iff name := by
    rw [hnames]
    constructor
    · intro hname
      obtain ⟨member, hmember, rfl⟩ := List.mem_map.mp hname
      obtain ⟨hmem, hcolumn, hcolumns⟩ := column_of_derived hinfo hmember
      exact ⟨hmem, hcolumn ▸ hcolumns⟩
    · rintro ⟨hmem, hcolumn⟩
      rcases List.mem_append.mp hmem with hmem | hmem
      · obtain ⟨f, hf, rfl⟩ := List.mem_map.mp hmem
        rw [hinfo] at hf
        obtain ⟨g, hg, rfl⟩ := List.mem_map.mp hf
        obtain ⟨member, hmember, hfield⟩ := List.mem_filterMap.mp hg
        cases member <;> cases hfield
        exact List.mem_map.mpr ⟨.field g, List.mem_filter.mpr ⟨hmember, rfl⟩, rfl⟩
      · obtain ⟨r, hr, rfl⟩ := List.mem_map.mp hmem
        have hkind : r.kind ≠ .manyToMany := fun hkind => ModelAdmin.column_of_manyToMany hr hkind hcolumn
        rw [hinfo] at hr
        obtain ⟨member, hmember, hrelation⟩ := List.mem_filterMap.mp hr
        cases member <;> cases hrelation
        exact List.mem_map.mpr ⟨.relation r, List.mem_filter.mpr ⟨hmember, bne_iff_ne.mpr hkind⟩, rfl⟩
  names row values h := by
    rw [hvalues] at h
    cases hread : M.fromRow G T row with
    | error e => rw [hread] at h; cases h
    | ok object =>
      rw [hread] at h
      cases h
      rw [hnames, DerivedModel.fieldValues, List.map_map]
      rfl
  columns row values h name hname := by
    rw [hvalues] at h
    cases hread : M.fromRow G T row with
    | error e => rw [hread] at h; cases h
    | ok object =>
      rw [hnames] at hname
      obtain ⟨member, hmember, rfl⟩ := List.mem_map.mp hname
      obtain ⟨p, -, hp⟩ := (Except.mapM_eq_ok.mp hread).exists_of_mem_left hmember
      rw [(column_of_derived hinfo hmember).2.1]
      rw [Member.fromRow] at hp
      split at hp
      · cases hp
      · rename_i c hc
        rw [hc]
        rfl

end Derived

/-- A row whose form a user is shown, in a table with distinct keys. The tenant does not depend on the form. -/
structure ShownForm [Fmt] [UnquotedNames] [CaseMap] (S : AdminServer) (site : Site) (req : AdminRequest) (w : World) where
  access : Access
  pk : Int
  row : Row Cell
  values : List (String × Value)
  page : FormPage
  authorized : ∀ form, authorizeRow site { req with form } "change" = .ok (access, pk)
  shown : (adminChangeGet site req).eval (AdminCall.exec S) w = (w, .ok (.form page))
  stored : row ∈ w.tables access.admin.info.tableName
  scope : (scopedTo access.admin pk access.tenant).keeps S.toServer w.tables row = true
  decoded : access.admin.fieldValues row = .ok values
  once : (row.map (·.1)).Nodup
  keys : KeysDistinct S access.admin w.tables
  tenant : ∀ p ∈ access.tenant.toList, p.1 ∈ memberNames access.admin.info
  describes : Describes access.admin

/-- Posts a form. -/
def submit [Fmt] [Rest.Parse] [UnquotedNames] [CaseMap] (S : AdminServer) (site : Site) (req : AdminRequest) (w : World)
    (form : Except DjangorsError (List (String × String))) : World × Except Fault Reply :=
  (adminChangePost site { req with form }).eval (AdminCall.execTable S) w

namespace ShownForm
variable [Fmt] [Rest.Parse] [UnquotedNames] [CaseMap] {S : AdminServer} {site : Site} {req : AdminRequest} {w : World}
  (r : ShownForm S site req w) (options : FormOptions)

abbrev admin : ModelAdmin := r.access.admin

/-- The form as it is shown is taken, and neither the tables nor a difference in the log come of it. -/
def SavesNothing : Prop :=
  ∃ w' entry, submit S site req w (.ok (controls site r.admin options r.page)) = (w', .ok (.redirect req.app req.model)) ∧
    w'.tables = w.tables ∧ w'.log = w.log ++ [entry] ∧ entry.fieldDiff = none

/-- No submission changes what the table has in a listed field. -/
def KeepsReadonly : Prop :=
  ∀ form, ∀ name ∈ options.readonlyFields, name ∈ memberNames r.admin.info →
    ((submit S site req w form).1.tables r.admin.info.tableName).map (·.lookup (r.admin.column name)) =
      (w.tables r.admin.info.tableName).map (·.lookup (r.admin.column name))

/-- The fields and the relations of a form that can be saved as it is shown: what is stored in a field comes back from its
    control, or from the control that it does not have, and a listed one is of a kind that is not read. -/
structure Harmless : Prop where
  editable : (changeFields r.admin).map (·.name) ++ r.admin.info.relations.map (·.fieldName) ≠ []
  fields : ∀ f ∈ r.admin.info.fields, f.auto = false → ∃ v, r.row.lookup f.columnName = some (storedCell r.admin.info f.name v) ∧
    (f.name ∈ options.readonlyFields → isRead f.kind = false) ∧
      if f.primaryKey = true then blank f = some v
      else r.values.lookup f.name = some v ∧ if f.name ∈ options.readonlyFields then blank f = some v else Printed f v
  relations : ∀ relation ∈ r.admin.info.relations, relation.kind ≠ .manyToMany ∧
    relation.fieldName ∉ options.readonlyFields ∧ ∃ n, r.values.lookup relation.fieldName = some (.i64 n) ∧
      r.row.lookup relation.fieldName = some (.i64 n) ∧ -2 ^ 63 ≤ n ∧ n < 2 ^ 63

variable {r options}

omit [Rest.Parse] in
/-- The row is the only one in its scope. -/
theorem eq_row {row : Row Cell} (hrow : row ∈ w.tables r.admin.info.tableName)
    (hkeeps : (scopedTo r.admin r.pk r.access.tenant).keeps S.toServer w.tables row = true) : row = r.row := by
  have hkey {row : Row Cell} (h : (scopedTo r.admin r.pk r.access.tenant).keeps S.toServer w.tables row = true) :
      S.has r.admin.pk.columnName r.pk row = true := by
    rw [keeps_scopedTo _ _ r.tenant, Bool.and_eq_true, Bool.and_eq_true] at h
    exact h.2.1
  exact r.keys.eq hrow r.stored (hkey hkeeps) (hkey r.scope)

omit [Rest.Parse] in
/-- What is read by the key is the row. -/
theorem getByPk_eq {u : World} {found : List (String × Value)}
    (h : (r.admin.getByPk r.pk r.access.tenant).eval (AdminCall.exec S) w = (u, .ok (some found))) : found = r.values := by
  rw [ModelAdmin.getByPk, scopedPkQueryset_eq r.tenant] at h
  obtain ⟨_, hqs, h⟩ := eval_orFail_eq_ok.mp h
  obtain rfl := Except.ok.inj hqs
  obtain ⟨rows, hrows, h⟩ := eval_ask_eq_ok.mp h
  obtain ⟨items, hitems, h⟩ := eval_orFail_eq_ok.mp h
  have hitems : rows.mapM r.admin.fieldValues = .ok items := by
    cases hmap : rows.mapM r.admin.fieldValues with
    | ok read => rw [hmap] at hitems; exact congrArg Except.ok (Except.ok.inj hitems)
    | error e => rw [hmap] at hitems; cases hitems
  have hread := Except.mapM_eq_ok.mp hitems
  match items, h with
  | [values], h =>
    cases h
    obtain ⟨row, rest, hrow, hrest, rfl⟩ := List.forall₂_cons_right_iff.mp hread
    obtain rfl := List.forall₂_nil_right_iff.mp hrest
    obtain ⟨hmem, hselects⟩ := fetch_mem (stopErr_eq_ok.mp hrows) (List.mem_singleton_self row)
    have hkeeps : ((scopedTo r.admin r.pk r.access.tenant).withLimit 2).keeps S.toServer w.tables row = true :=
      keeps_of_selects hselects
    obtain rfl := eq_row hmem hkeeps
    exact Except.ok.inj (hrow.symm.trans r.decoded)

omit [Rest.Parse] in
/-- The page shows the texts of the values of the row. -/
theorem page_eq : (r.admin.getByPk r.pk r.access.tenant).eval (AdminCall.exec S) w = (w, .ok (some r.values)) ∧
    r.page.values = displayed r.values ∧ r.page.isAdd = false := by
  obtain ⟨access, haccess, h⟩ := eval_orFail_eq_ok.mp r.shown
  obtain rfl := Except.ok.inj (haccess.symm.trans (r.authorized req.form))
  obtain ⟨canDelete, -, h⟩ := eval_orFail_eq_ok.mp h
  obtain ⟨u, found, hfound, h⟩ := Fallible.eval_bind_eq_ok.mp h
  obtain rfl : w = u := (eval_reads (reads_getByPk ..)).symm.trans (congrArg Prod.fst hfound)
  cases found with
  | none => cases h
  | some found =>
    obtain rfl := getByPk_eq hfound
    obtain ⟨_, inlines, -, h⟩ := Fallible.eval_bind_eq_ok.mp h
    injection h with _ h
    injection h with h
    injection h with h
    rw [← h]
    exact ⟨hfound, rfl, rfl⟩

omit [Rest.Parse] in
theorem values_nodup : (r.values.map (·.1)).Nodup := by
  rw [r.describes.names _ _ r.decoded]
  exact r.describes.nodup

omit [Rest.Parse] in
theorem exists_value {name : String} (h : name ∈ r.admin.fieldNames) :
    ∃ v cell, r.values.lookup name = some v ∧ r.row.lookup (r.admin.column name) = some cell := by
  obtain ⟨cell, hcell⟩ := Option.isSome_iff_exists.mp (r.describes.columns _ _ r.decoded name h)
  rw [← r.describes.names _ _ r.decoded] at h
  obtain ⟨p, hp, rfl⟩ := List.mem_map.mp h
  exact ⟨p.2, cell, List.lookup_of_mem values_nodup hp, hcell⟩

omit [Rest.Parse] in
theorem mem_fieldNames_field {f : FieldMeta} (hf : f ∈ r.admin.info.fields) : f.name ∈ r.admin.fieldNames := by
  refine (r.describes.mem_iff _).mpr ⟨ModelAdmin.mem_memberNames_of_field hf, ?_⟩
  rw [ModelAdmin.column_field hf]
  exact List.mem_append_left _ (List.mem_map_of_mem hf)

omit [Rest.Parse] in
theorem mem_fieldNames_relation {relation : RelationMeta} (hr : relation ∈ r.admin.info.relations)
    (hkind : relation.kind ≠ .manyToMany) : relation.fieldName ∈ r.admin.fieldNames := by
  refine (r.describes.mem_iff _).mpr ⟨List.mem_append_right _ (List.mem_map_of_mem hr), ?_⟩
  rw [ModelAdmin.column_relation hr]
  exact List.mem_append_right _ (List.mem_map_of_mem (List.mem_filter.mpr ⟨hr, bne_iff_ne.mpr hkind⟩))

/-- The texts of the form as it is shown. -/
abbrev untouched (r : ShownForm S site req w) (options : FormOptions) : FormData :=
  formData (controls site r.admin options r.page)

omit [Rest.Parse] in
theorem untouched_field {f : FieldMeta} {v : Value} (hf : f ∈ r.admin.info.fields) (hauto : f.auto = false)
    (hv : r.values.lookup f.name = some v) :
    r.untouched options f.name = if f.primaryKey = true ∨ f.name ∈ options.readonlyFields then none else submitted f v := by
  obtain ⟨-, hvalues, hadd⟩ := page_eq (r := r)
  rw [untouched, formData_controls (mem_rendered (mem_fieldNames_field hf))]
  refine controlOf_field hf hauto hadd ?_
  rw [hvalues, formData_displayed values_nodup, hv]
  rfl

omit [Rest.Parse] in
theorem untouched_relation {relation : RelationMeta} {v : Value} (hr : relation ∈ r.admin.info.relations)
    (hkind : relation.kind ≠ .manyToMany) (hv : r.values.lookup relation.fieldName = some v) :
    r.untouched options relation.fieldName =
      if relation.fieldName ∈ options.readonlyFields then none else some v.display := by
  obtain ⟨-, hvalues, -⟩ := page_eq (r := r)
  rw [untouched, formData_controls (mem_rendered (mem_fieldNames_relation hr hkind))]
  refine controlOf_relation hr ?_
  rw [hvalues, formData_displayed values_nodup, hv]
  rfl

/-! ### Posting a form -/

section Post
variable {α : Type} {p : Handler α} {pairs : List (String × String)} {u w' : World} {vs : List (String × Value)}

omit [Rest.Parse] [CaseMap] in
theorem eval_execTable (h : Quiet p) : p.eval (AdminCall.execTable S) u = p.eval (AdminCall.exec S) u := by
  refine Program.Only.eval_congr h fun call u hcall => ?_
  cases call with
  | update => cases hcall
  | _ => rfl

/-- How the handler goes on after the update. -/
def finish (r : ShownForm S site req w) (pairs : List (String × String)) (result : Except FormErrors Unit) : Handler Reply :=
  match result with
  | .ok () => do
    let diff := fieldDiff r.admin.info (formData pairs) r.values
    logAction r.access.user r.admin.info r.pk actionChange "Changed." (if diff = [] then none else some diff)
    return .redirect req.app req.model
  | .error errors => do
    match ← r.admin.getByPk r.pk r.access.tenant with
    | none => orFail (.error .notFound)
    | some values =>
      let kept := values.filter fun (name, _) => (r.admin.info.field? name).any fun f => f.auto || f.primaryKey
      let canDelete ← orFail (offers site r.access.user r.admin.info "delete")
      let inlines ← buildInlineTables site r.pk (r.admin.config.inlines.getD [])
      return .form ⟨pairs ++ displayed kept, errors, false, canDelete, inlines⟩

theorem quiet_finish {result : Except FormErrors Unit} : Quiet (r.finish pairs result) := by
  cases result with
  | ok _ => exact Fallible.only_bind (quiet_logAction ..) fun _ => trivial
  | error errors =>
    refine Fallible.only_bind (reads_getByPk ..).quiet fun found => ?_
    cases found with
    | none => exact only_orFail _
    | some values =>
      refine Fallible.only_bind (only_orFail _) fun _ => ?_
      exact Fallible.only_bind (reads_buildInlineTables ..).quiet fun _ => trivial

theorem submit_ok : submit S site req w (.ok pairs) =
    (r.admin.updateFromForm r.pk (formData pairs) r.access.tenant >>= r.finish pairs).eval (AdminCall.execTable S) w := by
  have hread : (r.admin.getByPk r.pk r.access.tenant).eval (AdminCall.execTable S) w = (w, .ok (some r.values)) := by
    rw [eval_execTable (reads_getByPk ..).quiet]
    exact page_eq.1
  rw [submit, adminChangePost, r.authorized, orFail_bind]
  dsimp only
  rw [orFail_bind]
  dsimp only
  rw [Fallible.eval_bind_ok hread]
  refine congrArg (fun f => (r.admin.updateFromForm r.pk (formData pairs) r.access.tenant >>= f).eval _ w)
    (funext fun result => ?_)
  cases result <;> rfl

theorem updateFromForm_eq_ok {form : FormData} :
    (r.admin.updateFromForm r.pk form r.access.tenant).eval (AdminCall.execTable S) w = (u, .ok (.ok ())) ↔
      ∃ vs n, readForm (changeFields r.admin) r.admin.info.relations form = some (.ok vs) ∧
        (AdminCall.update _ (scopedTo r.admin r.pk r.access.tenant) (literals vs)).execTable S w = (u, .ok n) := by
  rw [ModelAdmin.updateFromForm, eval_orPanic_eq_ok]
  constructor
  · rintro ⟨result, hresult, h⟩
    cases result with
    | error errors => cases h
    | ok vs =>
      dsimp only at h
      rw [ModelAdmin.updateTo, scopedPkQueryset_eq r.tenant] at h
      obtain ⟨_, hqs, h⟩ := eval_orFail_eq_ok.mp h
      obtain rfl := Except.ok.inj hqs
      obtain ⟨n, hn, h⟩ := eval_ask_eq_ok.mp h
      cases h
      exact ⟨vs, n, hresult, Prod.ext rfl hn⟩
  · rintro ⟨vs, n, hresult, h⟩
    refine ⟨_, hresult, ?_⟩
    dsimp only
    rw [ModelAdmin.updateTo, scopedPkQueryset_eq r.tenant]
    refine eval_orFail_eq_ok.mpr ⟨_, rfl, eval_ask_eq_ok.mpr ⟨n, congrArg Prod.snd h, ?_⟩⟩
    exact congrArg (fun result => (result.1, Except.ok (Except.ok ()))) h

/-- A form is taken when it can be read and the statement runs. -/
theorem submit_eq_redirect (hlogs : ∀ entry, S.refusesLog entry = none) :
    submit S site req w (.ok pairs) = (w', .ok (.redirect req.app req.model)) ↔
      ∃ vs n u, readForm (changeFields r.admin) r.admin.info.relations (formData pairs) = some (.ok vs) ∧
        (AdminCall.update _ (scopedTo r.admin r.pk r.access.tenant) (literals vs)).execTable S w = (u, .ok n) ∧
        w' = { u with log := u.log ++ [logEntry r.access.user r.admin.info r.pk actionChange "Changed."
          (if fieldDiff r.admin.info (formData pairs) r.values = [] then none
            else some (fieldDiff r.admin.info (formData pairs) r.values))] } := by
  have hfinish {u : World} : (r.finish pairs (.ok ())).eval (AdminCall.execTable S) u = ({ u with log := u.log ++
      [logEntry r.access.user r.admin.info r.pk actionChange "Changed."
        (if fieldDiff r.admin.info (formData pairs) r.values = [] then none
          else some (fieldDiff r.admin.info (formData pairs) r.values))] }, .ok (.redirect req.app req.model)) := by
    rw [eval_execTable quiet_finish, finish, Fallible.eval_bind_ok (eval_logAction (hlogs _))]
    rfl
  rw [submit_ok, Fallible.eval_bind_eq_ok]
  constructor
  · rintro ⟨u, result, hresult, h⟩
    cases result with
    | ok _ =>
      obtain ⟨vs, n, hvs, hn⟩ := updateFromForm_eq_ok.mp hresult
      exact ⟨vs, n, u, hvs, hn, congrArg Prod.fst (h.symm.trans hfinish)⟩
    | error errors =>
      -- The form is shown again.
      obtain ⟨_, found, -, h⟩ := Fallible.eval_bind_eq_ok.mp h
      cases found with
      | none => cases h
      | some found =>
        obtain ⟨_, -, h⟩ := eval_orFail_eq_ok.mp h
        obtain ⟨_, _, -, h⟩ := Fallible.eval_bind_eq_ok.mp h
        cases h
  · rintro ⟨vs, n, u, hvs, hn, rfl⟩
    exact ⟨u, .ok (), updateFromForm_eq_ok.mpr ⟨vs, n, hvs, hn⟩, hfinish⟩

omit [Fmt] [Rest.Parse] [UnquotedNames] [CaseMap] in
/-- A call whose result does not matter. -/
theorem eval_ask_fst {σ β : Type} {exec : (call : AdminCall) → σ → σ × call.Answer} {s : σ} {call : AdminCall} (b : β) :
    ((ask call >>= fun _ => (pure b : Handler β)).eval exec s).1 = (exec call s).1 := by
  have heval : (ask call).eval exec s = ((exec call s).1, (exec call s).2.mapError .ofStop) := rfl
  rw [Fallible.eval_bind, heval]
  cases (exec call s).2 <;> rfl

omit [Rest.Parse] [CaseMap] in
theorem execTable_update_tables (m : ModelMeta) (qs : QuerySet m) (sets : List (String × SetExpr)) :
    ((AdminCall.update m qs sets).execTable S w).1.tables = w.tables ∨ ∃ after effects n,
      AdminCall.runUpdate S w.tables m qs sets = .ok (after, effects, n) ∧
        ((AdminCall.update m qs sets).execTable S w).1.tables = after := by
  rw [AdminCall.execTable]
  split
  · rw [AdminCall.exec]
    rcases AdminCall.runUpdate S w.tables m qs sets with _ | ⟨after, effects, n⟩
    · exact .inl rfl
    · exact .inr ⟨after, effects, n, rfl, rfl⟩
  · exact .inl rfl

theorem updateFromForm_tables (form : FormData) :
    ((r.admin.updateFromForm r.pk form r.access.tenant).eval (AdminCall.execTable S) w).1.tables = w.tables ∨
      ∃ vs after effects n, readForm (changeFields r.admin) r.admin.info.relations form = some (.ok vs) ∧
        AdminCall.runUpdate S w.tables r.admin.info (scopedTo r.admin r.pk r.access.tenant) (literals vs) =
          .ok (after, effects, n) ∧
        ((r.admin.updateFromForm r.pk form r.access.tenant).eval (AdminCall.execTable S) w).1.tables = after := by
  have hfields : r.admin.info.fields.filter (!·.auto) = changeFields r.admin := rfl
  rw [ModelAdmin.updateFromForm, hfields]
  rcases readForm (changeFields r.admin) r.admin.info.relations form with _ | _ | vs
  · exact .inl rfl
  · exact .inl rfl
  · have hupdate : ((r.admin.updateTo r.pk r.access.tenant vs).eval (AdminCall.execTable S) w).1 =
        ((AdminCall.update _ (scopedTo r.admin r.pk r.access.tenant) (literals vs)).execTable S w).1 := by
      rw [ModelAdmin.updateTo, scopedPkQueryset_eq r.tenant, orFail_bind]
      exact eval_ask_fst _
    rcases execTable_update_tables (S := S) (w := w) r.admin.info (scopedTo r.admin r.pk r.access.tenant) (literals vs) with
      h | ⟨after, effects, n, hrun, h⟩
    · exact .inl ((congrArg World.tables hupdate).trans h)
    · exact .inr ⟨vs, after, effects, n, rfl, hrun, (congrArg World.tables hupdate).trans h⟩

/-- What a submission makes of the tables: nothing, or what its statement does. -/
theorem submit_tables (form : Except DjangorsError (List (String × String))) :
    (submit S site req w form).1.tables = w.tables ∨ ∃ pairs vs after effects n, form = .ok pairs ∧
      readForm (changeFields r.admin) r.admin.info.relations (formData pairs) = some (.ok vs) ∧
      AdminCall.runUpdate S w.tables r.admin.info (scopedTo r.admin r.pk r.access.tenant) (literals vs) =
        .ok (after, effects, n) ∧ (submit S site req w form).1.tables = after := by
  cases form with
  | error e =>
    refine .inl ?_
    rw [submit, adminChangePost, r.authorized, orFail_bind]
    rfl
  | ok pairs =>
    -- What follows the update leaves the tables.
    have htables : (submit S site req w (.ok pairs)).1.tables =
        ((r.admin.updateFromForm r.pk (formData pairs) r.access.tenant).eval (AdminCall.execTable S) w).1.tables := by
      rw [submit_ok (r := r), Fallible.eval_bind]
      rcases ((r.admin.updateFromForm r.pk (formData pairs) r.access.tenant).eval (AdminCall.execTable S) w) with ⟨u, _ | result⟩
      · rfl
      · rw [Fallible.onward, eval_execTable quiet_finish]
        exact (eval_quiet quiet_finish).1
    rw [htables]
    rcases updateFromForm_tables (r := r) (formData pairs) with h | ⟨vs, after, effects, n, hvs, hrun, h⟩
    · exact .inl h
    · exact .inr ⟨pairs, vs, after, effects, n, rfl, hvs, hrun, h⟩

end Post

/-! ### What is stored -/

section Stored
variable {form : FormData} {vs : List (String × Value)} {name : String}

omit [Rest.Parse] in
theorem assigned_row : assigned S w.tables (scopedTo r.admin r.pk r.access.tenant) vs r.row =
    r.row.setAll (storedCells r.admin.info vs) := if_pos r.scope

omit [Rest.Parse] in
theorem assigned_other {row : Row Cell} (hrow : row ∈ w.tables r.admin.info.tableName) (hne : row ≠ r.row) :
    assigned S w.tables (scopedTo r.admin r.pk r.access.tenant) vs row = row :=
  if_neg fun hkeeps => hne (eq_row hrow hkeeps)

theorem lookup_assigned (hvs : readForm (changeFields r.admin) r.admin.info.relations form = some (.ok vs))
    (hname : name ∈ memberNames r.admin.info) :
    (assigned S w.tables (scopedTo r.admin r.pk r.access.tenant) vs r.row).lookup (r.admin.column name) =
      (r.row.lookup (r.admin.column name)).map fun old => ((vs.lookup name).map (storedCell r.admin.info name)).getD old := by
  obtain ⟨hnames, hmembers⟩ := readForm_members List.filter_sublist (List.Sublist.refl _) hvs
  rw [assigned_row, Row.lookup_setAll (storedCells_nodup hnames hmembers), lookup_storedCells hmembers hname]

theorem lookup_auto (hvs : readForm (changeFields r.admin) r.admin.info.relations form = some (.ok vs)) {f : FieldMeta}
    (hf : f ∈ r.admin.info.fields) (hauto : f.auto = true) : vs.lookup f.name = none := by
  obtain ⟨hfields, -, hdisjoint⟩ := List.nodup_append.mp r.admin.names_nodup
  rw [List.lookup_eq_none_iff]
  intro p hp
  refine bne_iff_ne.mpr fun heq => ?_
  have hmem := List.mem_map_of_mem (f := Prod.fst) hp
  rw [readForm_names hvs, ← heq, List.mem_append] at hmem
  rcases hmem with hmem | hmem
  · obtain ⟨g, hg, hname⟩ := List.mem_map.mp hmem
    obtain ⟨hg, hnot⟩ := List.mem_filter.mp hg
    obtain rfl := List.inj_on_of_nodup_map hfields hg hf hname
    rw [hauto] at hnot
    cases hnot
  · exact hdisjoint _ (List.mem_map_of_mem hf) _ hmem rfl

/-- A listed field keeps what it has when its kind is not read. -/
theorem keepsReadonly_of_harmless (h : r.Harmless options) : r.KeepsReadonly options := by
  intro form name hlisted hname
  rcases submit_tables (r := r) form with htables | ⟨pairs, vs, after, effects, n, -, hvs, hrun, htables⟩
  · rw [htables]
  obtain ⟨rfl, -⟩ := runUpdate_eq_ok hrun
  rw [htables, Function.update_self, List.map_map]
  refine List.map_congr_left fun row hrow => ?_
  by_cases heq : row = r.row
  · subst heq
    rw [Function.comp_apply, lookup_assigned hvs hname]
    obtain ⟨hnames, hmembers⟩ := readForm_members List.filter_sublist (List.Sublist.refl _) hvs
    rcases List.mem_append.mp hname with hmem | hmem
    · obtain ⟨f, hf, rfl⟩ := List.mem_map.mp hmem
      cases hauto : f.auto with
      | true =>
        rw [lookup_auto hvs hf hauto]
        simp
      | false =>
        obtain ⟨v, hcell, hunread, hvalue⟩ := h.fields f hf hauto
        obtain ⟨v', hv', hparse⟩ := readForm_field hvs hnames (List.mem_filter.mpr ⟨hf, by rw [hauto]; rfl⟩)
        have hblank : blank f = some v := by
          split at hvalue
          · exact hvalue
          · exact hvalue.2
        obtain rfl := Option.some.inj (hblank.symm.trans (parse_unread (hunread hlisted) hparse))
        rw [ModelAdmin.column_field hf, hcell, hv']
        rfl
    · obtain ⟨relation, hrelation, rfl⟩ := List.mem_map.mp hmem
      exact absurd hlisted (h.relations relation hrelation).2.1
  · rw [Function.comp_apply, assigned_other hrow heq]

/-- What is stored and what is shown come back from the form as it is shown. -/
structure ComesBack (r : ShownForm S site req w) (options : FormOptions) : Prop where
  editable : (changeFields r.admin).map (·.name) ++ r.admin.info.relations.map (·.fieldName) ≠ []
  fields : ∀ f ∈ r.admin.info.fields, f.auto = false → ∃ v, parseFieldValue f (r.untouched options f.name) = some (.ok v) ∧
    r.row.lookup f.columnName = some (storedCell r.admin.info f.name v) ∧
      (f.primaryKey = false → ∃ old, r.values.lookup f.name = some old ∧ sameValue old v = true)
  relations : ∀ relation ∈ r.admin.info.relations, relation.kind ≠ .manyToMany ∧
    ∃ v, parseRelationValue relation (r.untouched options relation.fieldName) = .ok v ∧
      r.row.lookup relation.fieldName = some (storedCell r.admin.info relation.fieldName v) ∧
        ∃ old, r.values.lookup relation.fieldName = some old ∧ sameValue old v = true

/-- The statement of a form runs when every relation has a column and the server takes its result. -/
theorem execTable_eq_ok {u : World} {n : Nat} (hvs : readForm (changeFields r.admin) r.admin.info.relations form = some (.ok vs))
    (h : (AdminCall.update _ (scopedTo r.admin r.pk r.access.tenant) (literals vs)).execTable S w = (u, .ok n)) :
    (∀ relation ∈ r.admin.info.relations, relation.kind ≠ .manyToMany) ∧ vs ≠ [] ∧ u.log = w.log ∧
      u.tables = Function.update w.tables r.admin.info.tableName ((w.tables r.admin.info.tableName).map
        (assigned S w.tables (scopedTo r.admin r.pk r.access.tenant) vs)) := by
  rw [AdminCall.execTable] at h
  split at h
  · rename_i hcolumns
    rw [AdminCall.exec] at h
    rcases hrun : AdminCall.runUpdate S w.tables r.admin.info (scopedTo r.admin r.pk r.access.tenant) (literals vs) with
      _ | ⟨after, effects, k⟩
    · rw [hrun] at h
      cases h
    · rw [hrun] at h
      obtain ⟨rfl, -⟩ := runUpdate_eq_ok hrun
      cases h
      refine ⟨fun relation hrelation hkind => ModelAdmin.column_of_manyToMany hrelation hkind ?_, ?_, rfl, rfl⟩
      · obtain ⟨hnames, -⟩ := readForm_members List.filter_sublist (List.Sublist.refl _) hvs
        obtain ⟨v, hv, -⟩ := readForm_relation hvs hnames hrelation
        obtain ⟨before, after, rfl, -⟩ := List.lookup_eq_some_iff.mp hv
        rw [List.all_eq_true] at hcolumns
        refine of_decide_eq_true (hcolumns (relation.fieldName, .literal v) ?_)
        exact List.mem_map.mpr ⟨(relation.fieldName, v), by simp, rfl⟩
      · rintro rfl
        cases hrun
  · cases h

/-- A statement that leaves the tables stores in every field what is there. -/
theorem cell_of_unchanged (hvs : readForm (changeFields r.admin) r.admin.info.relations form = some (.ok vs))
    (hsame : Function.update w.tables r.admin.info.tableName ((w.tables r.admin.info.tableName).map
      (assigned S w.tables (scopedTo r.admin r.pk r.access.tenant) vs)) = w.tables)
    (hname : name ∈ r.admin.fieldNames) {v : Value} (hv : vs.lookup name = some v) :
    r.row.lookup (r.admin.column name) = some (storedCell r.admin.info name v) := by
  have hmap : (w.tables r.admin.info.tableName).map (assigned S w.tables (scopedTo r.admin r.pk r.access.tenant) vs) =
      (w.tables r.admin.info.tableName).map id := by
    rw [List.map_id]
    exact (Function.update_self (f := w.tables) ..).symm.trans (congrFun hsame r.admin.info.tableName)
  have hrow : assigned S w.tables (scopedTo r.admin r.pk r.access.tenant) vs r.row = r.row :=
    List.map_inj_left.mp hmap r.row r.stored
  obtain ⟨-, cell, -, hcell⟩ := exists_value hname
  have hlookup := lookup_assigned hvs ((r.describes.mem_iff name).mp hname).1
  rw [hrow, hcell, hv] at hlookup
  rw [hcell]
  exact hlookup

theorem comesBack_of_savesNothing (hlogs : ∀ entry, S.refusesLog entry = none) (h : r.SavesNothing options) :
    r.ComesBack options := by
  obtain ⟨w', entry, hsubmit, htables, hlog, hdiff⟩ := h
  obtain ⟨vs, n, u, hvs, hexec, rfl⟩ := (submit_eq_redirect (r := r) hlogs).mp hsubmit
  obtain ⟨hrelations, hne, hulog, hutables⟩ := execTable_eq_ok hvs hexec
  obtain ⟨hnames, -⟩ := readForm_members List.filter_sublist (List.Sublist.refl _) hvs
  have hsame := hutables.symm.trans htables
  -- The only new entry has no difference.
  have hnone : fieldDiff r.admin.info (r.untouched options) r.values = [] := by
    have hentry := List.append_cancel_left ((congrArg (· ++ _) hulog.symm).trans hlog)
    rw [← List.singleton_inj.mp hentry] at hdiff
    by_contra hsome
    rw [if_neg hsome] at hdiff
    cases hdiff
  have hequal {name : String} {old v : Value} (hold : r.values.lookup name = some old)
      (hnew : newValue r.admin.info (r.untouched options) name = some v) : sameValue old v = true := by
    have hitem := List.filterMap_eq_nil_iff.mp hnone (name, old) (List.mem_of_lookup hold)
    dsimp only at hitem
    rw [hnew, Option.bind_some] at hitem
    by_contra hdiffer
    rw [if_neg hdiffer] at hitem
    cases hitem
  refine ⟨?_, fun f hf hauto => ?_, fun relation hrelation => ⟨hrelations relation hrelation, ?_⟩⟩
  · rw [← readForm_names hvs]
    exact fun hnil => hne (List.map_eq_nil_iff.mp hnil)
  · obtain ⟨v, hv, hparse⟩ := readForm_field hvs hnames (List.mem_filter.mpr ⟨hf, by rw [hauto]; rfl⟩)
    have hcell := cell_of_unchanged hvs hsame (mem_fieldNames_field hf) hv
    rw [ModelAdmin.column_field hf] at hcell
    refine ⟨v, hparse, hcell, fun hpk => ?_⟩
    obtain ⟨old, -, hold, -⟩ := exists_value (mem_fieldNames_field hf)
    refine ⟨old, hold, hequal hold ?_⟩
    rw [newValue, ModelAdmin.field?_eq hf]
    dsimp only
    rw [hauto, hpk, hparse]
    rfl
  · obtain ⟨v, hv, hparse⟩ := readForm_relation hvs hnames hrelation
    have hmem := mem_fieldNames_relation hrelation (hrelations relation hrelation)
    have hcell := cell_of_unchanged hvs hsame hmem hv
    rw [ModelAdmin.column_relation hrelation] at hcell
    obtain ⟨old, -, hold, -⟩ := exists_value hmem
    refine ⟨v, hparse, hcell, old, hold, hequal hold ?_⟩
    obtain ⟨hfield, hrel⟩ := ModelAdmin.relation?_eq hrelation
    rw [newValue, hfield, hrel]
    dsimp only
    rw [Option.bind_some, hparse]
    rfl

/-- The values of the form as it is shown, where every one comes back. -/
theorem readForm_untouched (h : r.ComesBack options) :
    ∃ vs, readForm (changeFields r.admin) r.admin.info.relations (r.untouched options) = some (.ok vs) := by
  refine readForm_of_ok (fun f hf => ?_) fun relation hrelation => ?_
  · obtain ⟨hf, hauto⟩ := List.mem_filter.mp hf
    obtain ⟨v, hv, -⟩ := h.fields f hf (by simpa using hauto)
    exact ⟨v, hv⟩
  · obtain ⟨-, v, hv, -⟩ := h.relations relation hrelation
    exact ⟨v, hv⟩

theorem fieldDiff_untouched (h : r.ComesBack options) : fieldDiff r.admin.info (r.untouched options) r.values = [] := by
  refine List.filterMap_eq_nil_iff.mpr fun p hp => ?_
  obtain ⟨name, old⟩ := p
  have hold : r.values.lookup name = some old := List.lookup_of_mem values_nodup hp
  dsimp only
  cases hnew : newValue r.admin.info (r.untouched options) name with
  | none => rfl
  | some v =>
    have hsame : sameValue old v = true := by
      rw [newValue] at hnew
      cases hfield : r.admin.info.field? name with
      | some f =>
        rw [hfield] at hnew
        dsimp only at hnew
        split at hnew
        · cases hnew
        · rename_i hplain
          have hf := List.mem_of_find?_eq_some hfield
          obtain rfl : f.name = name := by simpa using List.find?_some hfield
          obtain ⟨hauto, hpk⟩ : f.auto = false ∧ f.primaryKey = false := by simpa using hplain
          obtain ⟨v', hparse, -, hback⟩ := h.fields f hf hauto
          obtain ⟨old', hold', hsame⟩ := hback hpk
          rw [hparse] at hnew
          cases hnew
          cases hold.symm.trans hold'
          exact hsame
      | none =>
        rw [hfield] at hnew
        obtain ⟨relation, hfind, hparse⟩ := Option.bind_eq_some_iff.mp hnew
        have hrelation := List.mem_of_find?_eq_some hfind
        obtain rfl : relation.fieldName = name := by simpa using List.find?_some hfind
        obtain ⟨-, v', hparse', -, old', hold', hsame⟩ := h.relations relation hrelation
        rw [hparse'] at hparse
        cases hparse
        cases hold.symm.trans hold'
        exact hsame
    rw [Option.bind_some, if_pos hsame]

/-- The statement of the form as it is shown leaves the row. -/
theorem assigned_untouched (h : r.ComesBack options)
    (hvs : readForm (changeFields r.admin) r.admin.info.relations (r.untouched options) = some (.ok vs)) :
    assigned S w.tables (scopedTo r.admin r.pk r.access.tenant) vs r.row = r.row := by
  obtain ⟨hnames, hmembers⟩ := readForm_members List.filter_sublist (List.Sublist.refl _) hvs
  rw [assigned_row]
  refine Row.setAll_eq_self r.once fun cell hcell old hold => ?_
  obtain ⟨p, hp, rfl⟩ := List.mem_map.mp hcell
  have hlookup := List.lookup_of_mem hnames hp
  rcases List.mem_append.mp (readForm_names hvs ▸ List.mem_map_of_mem (f := Prod.fst) hp) with hmem | hmem
  · obtain ⟨f, hf, hname⟩ := List.mem_map.mp hmem
    obtain ⟨v, hv, hparse⟩ := readForm_field hvs hnames hf
    obtain ⟨hf, hauto⟩ := List.mem_filter.mp hf
    obtain ⟨v', hparse', hcell, -⟩ := h.fields f hf (by simpa using hauto)
    cases hparse.symm.trans hparse'
    rw [hname, hlookup] at hv
    cases hv
    have hcolumn := ModelAdmin.column_field hf
    rw [hname] at hcolumn hcell
    have hold : r.row.lookup (r.admin.column p.1) = some old := hold
    rw [hcolumn, hcell] at hold
    exact (Option.some.inj hold).symm
  · obtain ⟨relation, hrelation, hname⟩ := List.mem_map.mp hmem
    obtain ⟨v, hv, hparse⟩ := readForm_relation hvs hnames hrelation
    obtain ⟨-, v', hparse', hcell, -⟩ := h.relations relation hrelation
    cases hparse.symm.trans hparse'
    rw [hname, hlookup] at hv
    cases hv
    have hcolumn := ModelAdmin.column_relation hrelation
    rw [hname] at hcolumn hcell
    have hold : r.row.lookup (r.admin.column p.1) = some old := hold
    rw [hcolumn, hcell] at hold
    exact (Option.some.inj hold).symm

/-- The columns of the values of a form are there, where every relation has one. -/
theorem column_mem (hcolumns : ∀ relation ∈ r.admin.info.relations, relation.kind ≠ .manyToMany)
    (hvs : readForm (changeFields r.admin) r.admin.info.relations form = some (.ok vs)) {p : String × Value} (hp : p ∈ vs) :
    r.admin.column p.1 ∈ r.admin.info.columns := by
  rcases List.mem_append.mp (readForm_names hvs ▸ List.mem_map_of_mem (f := Prod.fst) hp) with hmem | hmem
  · obtain ⟨f, hf, hname⟩ := List.mem_map.mp hmem
    exact hname ▸ ((r.describes.mem_iff _).mp (mem_fieldNames_field (List.mem_of_mem_filter hf))).2
  · obtain ⟨relation, hrelation, hname⟩ := List.mem_map.mp hmem
    exact hname ▸ ((r.describes.mem_iff _).mp (mem_fieldNames_relation hrelation (hcolumns relation hrelation))).2

/-- A form whose statement is taken is saved. -/
theorem execTable_of_taken (hcolumns : ∀ relation ∈ r.admin.info.relations, relation.kind ≠ .manyToMany)
    (hvs : readForm (changeFields r.admin) r.admin.info.relations form = some (.ok vs)) (hne : vs ≠ [])
    (htaken : S.refuses w.tables (Function.update w.tables r.admin.info.tableName ((w.tables r.admin.info.tableName).map
      (assigned S w.tables (scopedTo r.admin r.pk r.access.tenant) vs))) = none) :
    ∃ u n, (AdminCall.update _ (scopedTo r.admin r.pk r.access.tenant) (literals vs)).execTable S w = (u, .ok n) ∧
      u.log = w.log ∧ u.tables = Function.update w.tables r.admin.info.tableName ((w.tables r.admin.info.tableName).map
        (assigned S w.tables (scopedTo r.admin r.pk r.access.tenant) vs)) := by
  obtain ⟨-, hmembers⟩ := readForm_members List.filter_sublist (List.Sublist.refl _) hvs
  obtain ⟨n, hrun⟩ := runUpdate_of_taken (scopedTo r.admin r.pk r.access.tenant) hmembers hne htaken
  have hall : (literals vs).all (fun set => decide ((fieldToCol r.admin.info set.1).name ∈ r.admin.info.columns)) = true := by
    rw [List.all_eq_true]
    intro set hset
    obtain ⟨p, hp, rfl⟩ := List.mem_map.mp hset
    exact decide_eq_true (column_mem hcolumns hvs hp)
  refine ⟨((AdminCall.update _ (scopedTo r.admin r.pk r.access.tenant) (literals vs)).exec S w).1, n, ?_, ?_, ?_⟩
  · rw [AdminCall.execTable, if_pos hall, AdminCall.exec, hrun]
    rfl
  · rw [AdminCall.exec, hrun]
    rfl
  · rw [AdminCall.exec, hrun]
    rfl

theorem savesNothing_of_comesBack (hlogs : ∀ entry, S.refusesLog entry = none)
    (htaken : S.refuses w.tables w.tables = none) (h : r.ComesBack options) : r.SavesNothing options := by
  obtain ⟨vs, hvs⟩ := readForm_untouched h
  have hsame : Function.update w.tables r.admin.info.tableName ((w.tables r.admin.info.tableName).map
      (assigned S w.tables (scopedTo r.admin r.pk r.access.tenant) vs)) = w.tables := by
    have hmap : (w.tables r.admin.info.tableName).map (assigned S w.tables (scopedTo r.admin r.pk r.access.tenant) vs) =
        w.tables r.admin.info.tableName := by
      refine (List.map_congr_left fun row hrow => ?_).trans (List.map_id _)
      by_cases heq : row = r.row
      · rw [heq, assigned_untouched h hvs]
        rfl
      · rw [assigned_other hrow heq]
        rfl
    rw [hmap, Function.update_eq_self]
  have hne : vs ≠ [] := by
    rintro rfl
    exact h.editable (readForm_names hvs).symm
  obtain ⟨u, n, hexec, hlog, htables⟩ :=
    execTable_of_taken (fun relation hrelation => (h.relations relation hrelation).1) hvs hne (hsame.symm ▸ htaken)
  refine ⟨_, _, (submit_eq_redirect hlogs).mpr ⟨vs, n, u, hvs, hexec, rfl⟩, htables.trans hsame, congrArg (· ++ _) hlog, ?_⟩
  rw [logEntry, if_pos (fieldDiff_untouched h)]

/-- A server that takes every write stores another text for a listed field. -/
theorem not_keepsReadonly (haccepts : ∀ before after, S.refuses before after = none) (h : r.ComesBack options) {s : String}
    {cell : Cell} (hlisted : name ∈ options.readonlyFields)
    (hname : name ∈ (changeFields r.admin).map (·.name) ++ r.admin.info.relations.map (·.fieldName))
    (hcell : r.row.lookup (r.admin.column name) = some cell)
    (hfield : ∀ f ∈ changeFields r.admin, f.name = name →
      ∃ v, parseFieldValue f (some s) = some (.ok v) ∧ storedCell r.admin.info f.name v ≠ cell)
    (hrelation : ∀ relation ∈ r.admin.info.relations, relation.fieldName = name →
      ∃ v, parseRelationValue relation (some s) = .ok v ∧ storedCell r.admin.info relation.fieldName v ≠ cell) :
    ¬r.KeepsReadonly options := by
  intro hkeeps
  have hform (other : String) : formData (controls site r.admin options r.page ++ [(name, s)]) other =
      if other = name then some s else r.untouched options other := by
    rw [formData, List.reverse_append, List.reverse_singleton, List.singleton_append, List.lookup_cons]
    by_cases heq : other = name
    · simp [heq]
    · rw [beq_eq_false_iff_ne.mpr heq, if_neg heq]
      rfl
  obtain ⟨vs, hvs⟩ : ∃ vs, readForm (changeFields r.admin) r.admin.info.relations
      (formData (controls site r.admin options r.page ++ [(name, s)])) = some (.ok vs) := by
    refine readForm_of_ok (fun f hf => ?_) fun relation hr => ?_
    · rw [hform]
      split
      · rename_i heq
        obtain ⟨v, hv, -⟩ := hfield f hf heq
        exact ⟨v, hv⟩
      · obtain ⟨hf, hauto⟩ := List.mem_filter.mp hf
        obtain ⟨v, hv, -⟩ := h.fields f hf (by simpa using hauto)
        exact ⟨v, hv⟩
    · rw [hform]
      split
      · rename_i heq
        obtain ⟨v, hv, -⟩ := hrelation relation hr heq
        exact ⟨v, hv⟩
      · obtain ⟨-, v, hv, -⟩ := h.relations relation hr
        exact ⟨v, hv⟩
  obtain ⟨hnames, -⟩ := readForm_members List.filter_sublist (List.Sublist.refl _) hvs
  -- What is stored for the listed field is the other value.
  obtain ⟨v, hv, hne⟩ : ∃ v, vs.lookup name = some v ∧ storedCell r.admin.info name v ≠ cell := by
    rcases List.mem_append.mp hname with hmem | hmem
    · obtain ⟨f, hf, rfl⟩ := List.mem_map.mp hmem
      obtain ⟨v, hv, hparse⟩ := readForm_field hvs hnames hf
      obtain ⟨v', hparse', hne⟩ := hfield f hf rfl
      rw [hform, if_pos rfl, hparse'] at hparse
      cases hparse
      exact ⟨_, hv, hne⟩
    · obtain ⟨relation, hr, rfl⟩ := List.mem_map.mp hmem
      obtain ⟨v, hv, hparse⟩ := readForm_relation hvs hnames hr
      obtain ⟨v', hparse', hne⟩ := hrelation relation hr rfl
      rw [hform, if_pos rfl, hparse'] at hparse
      cases hparse
      exact ⟨_, hv, hne⟩
  have hmember : name ∈ memberNames r.admin.info := by
    rcases List.mem_append.mp hname with hmem | hmem
    · exact List.mem_append_left _ (((List.filter_sublist (p := fun f : FieldMeta => !f.auto)).map _).subset hmem)
    · exact List.mem_append_right _ hmem
  have hsome : vs ≠ [] := by
    rintro rfl
    cases hv
  obtain ⟨u, n, hexec, -, htables⟩ :=
    execTable_of_taken (fun relation hr => (h.relations relation hr).1) hvs hsome (haccepts _ _)
  have hkept := hkeeps (.ok (controls site r.admin options r.page ++ [(name, s)])) name hlisted hmember
  have hpost : (submit S site req w (.ok (controls site r.admin options r.page ++ [(name, s)]))).1.tables = u.tables := by
    rw [submit_ok (r := r), Fallible.eval_bind, updateFromForm_eq_ok.mpr ⟨vs, n, hvs, hexec⟩, Fallible.onward,
      eval_execTable quiet_finish]
    exact (eval_quiet quiet_finish).1
  rw [hpost, htables, Function.update_self, List.map_map] at hkept
  have hrow := List.map_inj_left.mp hkept r.row r.stored
  rw [Function.comp_apply, lookup_assigned hvs hmember, hcell, hv] at hrow
  exact hne (Option.some.inj hrow)

variable [LawfulTexts]

theorem comesBack_of_harmless (h : r.Harmless options) : r.ComesBack options := by
  refine ⟨h.editable, fun f hf hauto => ?_, fun relation hrelation => ?_⟩
  · obtain ⟨v, hcell, -, hvalue⟩ := h.fields f hf hauto
    obtain ⟨old, -, hold, -⟩ := exists_value (mem_fieldNames_field hf)
    have htext : r.untouched options f.name = _ := untouched_field hf hauto hold
    refine ⟨v, ?_⟩
    by_cases hpk : f.primaryKey = true
    · rw [if_pos hpk] at hvalue
      rw [if_pos (Or.inl hpk)] at htext
      rw [htext]
      exact ⟨(parse_empty rfl).mpr hvalue, hcell, fun hnot => by rw [hpk] at hnot; cases hnot⟩
    · rw [if_neg hpk] at hvalue
      obtain ⟨hvalue, hback⟩ := hvalue
      obtain rfl := Option.some.inj (hvalue.symm.trans hold)
      by_cases hlisted : f.name ∈ options.readonlyFields
      · rw [if_pos hlisted] at hback
        rw [if_pos (Or.inr hlisted)] at htext
        rw [htext]
        exact ⟨(parse_empty rfl).mpr hback, hcell, fun _ => ⟨v, hold, (sameValue_blank hback).mpr rfl⟩⟩
      · rw [if_neg hlisted] at hback
        rw [if_neg (not_or.mpr ⟨hpk, hlisted⟩)] at htext
        obtain ⟨hparse, hsame⟩ := printed_iff.mpr ⟨hback, rfl⟩
        rw [htext]
        exact ⟨hparse, hcell, fun _ => ⟨v, hold, hsame⟩⟩
  · obtain ⟨hkind, hunlisted, n, hvalue, hcell, hbounds⟩ := h.relations relation hrelation
    have htext : r.untouched options relation.fieldName = _ := untouched_relation hrelation hkind hvalue
    rw [if_neg hunlisted] at htext
    obtain ⟨hparse, hsame⟩ := (relation_iff (r := relation)).mpr ⟨⟨n, rfl, hbounds⟩, rfl⟩
    rw [htext]
    exact ⟨hkind, .i64 n, hparse, hcell, .i64 n, hvalue, hsame⟩

theorem harmless_of_comesBack (haccepts : ∀ before after, S.refuses before after = none) (h : r.ComesBack options)
    (hkeeps : r.KeepsReadonly options) : r.Harmless options := by
  obtain ⟨hfields, -, hdisjoint⟩ := List.nodup_append.mp r.admin.names_nodup
  refine ⟨h.editable, fun f hf hauto => ?_, fun relation hrelation => ?_⟩
  · obtain ⟨v, hparse, hcell, hback⟩ := h.fields f hf hauto
    obtain ⟨old, -, hold, -⟩ := exists_value (mem_fieldNames_field hf)
    rw [untouched_field hf hauto hold] at hparse
    refine ⟨v, hcell, fun hlisted => ?_, ?_⟩
    · by_contra hread
      obtain ⟨s, v', hparse', hne⟩ := exists_other_text (Bool.eq_true_of_not_eq_false hread) r.admin.info
        (storedCell r.admin.info f.name v)
      have hchange : f ∈ changeFields r.admin := List.mem_filter.mpr ⟨hf, by rw [hauto]; rfl⟩
      refine not_keepsReadonly (s := s) haccepts h hlisted (List.mem_append_left _ (List.mem_map_of_mem hchange))
        (by rw [ModelAdmin.column_field hf]; exact hcell) (fun g hg hname => ?_) (fun relation hr hname => ?_) hkeeps
      · obtain rfl := List.inj_on_of_nodup_map hfields (List.mem_of_mem_filter hg) hf hname
        exact ⟨v', hparse', hne⟩
      · exact absurd hname.symm (hdisjoint _ (List.mem_map_of_mem hf) _ (List.mem_map_of_mem hr))
    · by_cases hpk : f.primaryKey = true
      · rw [if_pos (Or.inl hpk)] at hparse
        rw [if_pos hpk]
        exact (parse_empty rfl).mp hparse
      · rw [if_neg hpk]
        obtain ⟨old', hold', hsame⟩ := hback (Bool.eq_false_of_not_eq_true hpk)
        cases hold.symm.trans hold'
        by_cases hlisted : f.name ∈ options.readonlyFields
        · rw [if_pos (Or.inr hlisted)] at hparse
          have hblank := (parse_empty rfl).mp hparse
          obtain rfl := (sameValue_blank hblank).mp hsame
          rw [if_pos hlisted]
          exact ⟨hold, hblank⟩
        · rw [if_neg (not_or.mpr ⟨hpk, hlisted⟩)] at hparse
          obtain ⟨hprinted, rfl⟩ := printed_iff.mp ⟨hparse, hsame⟩
          rw [if_neg hlisted]
          exact ⟨hold, hprinted⟩
  · obtain ⟨hkind, v, hparse, hcell, old, hold, hsame⟩ := h.relations relation hrelation
    have hunlisted : relation.fieldName ∉ options.readonlyFields := by
      intro hlisted
      obtain ⟨s, v', hparse', hne⟩ := exists_other_key relation r.admin.info
        (storedCell r.admin.info relation.fieldName v)
      refine not_keepsReadonly (s := s) haccepts h hlisted (List.mem_append_right _ (List.mem_map_of_mem hrelation))
        (by rw [ModelAdmin.column_relation hrelation]; exact hcell) (fun f hf hname => ?_) (fun other hr hname => ?_) hkeeps
      · exact absurd hname (hdisjoint _ (List.mem_map_of_mem (List.mem_of_mem_filter hf)) _ (List.mem_map_of_mem hrelation))
      · obtain rfl := List.inj_on_of_nodup_map (List.nodup_append.mp r.admin.names_nodup).2.1 hr hrelation hname
        exact ⟨v', hparse', hne⟩
    rw [untouched_relation hrelation hkind hold, if_neg hunlisted] at hparse
    obtain ⟨⟨n, rfl, hbounds⟩, rfl⟩ := relation_iff.mp ⟨hparse, hsame⟩
    exact ⟨hkind, hunlisted, n, hold, hcell, hbounds⟩

end Stored

end ShownForm

section Saving
variable [Fmt] [Rest.Parse] [LawfulTexts] [UnquotedNames] [CaseMap] {S : AdminServer} {site : Site} {req : AdminRequest}
  {w : World}

/-- A form that is posted as it is shown changes nothing, and none changes a listed field, where every field comes back
    from its control; and only there, if the server takes every write. -/
theorem untouched_save (r : ShownForm S site req w) (options : FormOptions) (hlogs : ∀ entry, S.refusesLog entry = none)
    (htaken : S.refuses w.tables w.tables = none) :
    (r.Harmless options → r.SavesNothing options ∧ r.KeepsReadonly options) ∧
      ((∀ before after, S.refuses before after = none) → r.SavesNothing options ∧ r.KeepsReadonly options →
        r.Harmless options) := by
  refine ⟨fun h => ⟨?_, ShownForm.keepsReadonly_of_harmless h⟩, fun haccepts ⟨hsaves, hkeeps⟩ => ?_⟩
  · exact ShownForm.savesNothing_of_comesBack hlogs htaken (ShownForm.comesBack_of_harmless h)
  · exact ShownForm.harmless_of_comesBack haccepts (ShownForm.comesBack_of_savesNothing hlogs hsaves) hkeeps

end Saving

/-! ### A page without a title -/

section Pages

def signedDigits : List Char → Option Int
  | '-' :: rest => (Text.digits? rest).map fun n => -Int.ofNat n
  | text => (Text.digits? text).map Int.ofNat

theorem signedDigits_toString (n : Int) : signedDigits (toString n).toList = some n := by
  cases n with
  | ofNat n =>
    have htext : toString (Int.ofNat n) = toString n := rfl
    rw [htext, signedDigits]
    · rw [Text.digits?_toString]
      rfl
    · exact Text.head_toString rfl
  | negSucc n =>
    rw [Text.toString_negSucc, signedDigits, Text.digits?_toString]
    rfl

/-- Reads what the plain printer prints. -/
@[reducible] def decimalTexts : Rest.Parse where
  f64 s := if s = "NaN" then some .nan else (Text.digits? s.toList).map fun n => .ofBits (.ofNat n)
  rfc3339 _ := none
  naive s := (signedDigits s.toList).map fun n => ⟨n - n % 1000000000⟩

attribute [local instance] CaseMap.ascii Fmt.decimal decimalTexts verbatim

theorem f64_decimal (x : F64) : Rest.Parse.f64 (Fmt.f64Display x) = some x := by
  cases x with
  | nan => rfl
  | num bits h =>
    have hne : toString bits.toNat ≠ "NaN" :=
      fun heq => @Text.head_toString bits.toNat 'N' rfl ['a', 'N'] (congrArg String.toList heq)
    show (if toString bits.toNat = "NaN" then some F64.nan else
      (Text.digits? (toString bits.toNat).toList).map fun n => .ofBits (.ofNat n)) = _
    rw [if_neg hne, Text.digits?_toString, Option.map_some, UInt64.ofNat_toNat, F64.ofBits, dif_pos h]

local instance lawfulTexts_decimal : LawfulTexts where
  f64_empty := rfl
  f64_display := f64_decimal
  naive_empty := rfl
  naive_display t := congrArg (Option.map _) (signedDigits_toString t.nanos)

def pageMembers : List Member :=
  [.field { ident := "id", columnName := "id", type := .i64, primaryKey := true, auto := true },
    .field { ident := "title", columnName := "title", type := .string, nullable := true }]

theorem pageMembers_idents : (pageMembers.map Member.ident).Nodup := by decide

theorem pageMembers_columns : (pageMembers.map Member.columnName).Nodup := by decide

/-- A page that may have no title. -/
def pageModel : DerivedModel where
  structName := "Page"
  appLabel := "site"
  tableName := "site_page"
  members := pageMembers
  idents_nodup := pageMembers_idents
  columns_nodup := pageMembers_columns
  one_pk := ⟨_, rfl⟩

def pageKey : FieldMeta where
  name := "id"
  columnName := "id"
  kind := .bigInt
  primaryKey := true
  auto := true
  unique := true
  dbIndex := true

def noTexts : TextTypes Empty := ⟨fun _ _ => .error "", fun _ v => v.elim⟩

theorem pageMeta_names : (memberNames pageModel.info).Nodup ∧
    (pageModel.info.fields.map (·.columnName) ++ pageModel.info.relations.map (·.fieldName)).Nodup ∧
      ∀ name ∈ memberNames pageModel.info, splitFieldLookup name = (name, "eq") := by
  refine ⟨?_, ?_, ?_⟩ <;> decide

def pageAdmin : ModelAdmin where
  info := pageModel.info
  pk := pageKey
  primary := rfl
  objects := {}
  fieldNames := ["id", "title"]
  fieldValues row := (pageModel.fromRow plainGet noTexts row).map (pageModel.fieldValues noTexts)
  config := {}
  names_nodup := pageMeta_names.1
  columns_nodup := pageMeta_names.2.1
  names_plain := pageMeta_names.2.2

theorem pageAdmin_registered : ∀ admin ∈ [pageAdmin], Registered [pageModel.info] admin := by
  simp only [List.mem_singleton, forall_eq]
  constructor <;> simp [pageAdmin]

def pageSite : Site where
  admins := [pageAdmin]
  tenantScope := none
  models := [pageModel.info]
  target _ := pageModel.info
  permissions := notePermissions
  iterate keys := keys
  iterate_perm _ := .refl _
  registered := pageAdmin_registered
  tables_nodup := List.nodup_singleton _

/-- A superuser looks at the page 1. -/
def pageRequest : AdminRequest where
  auth := .ok ⟨1, true, true⟩
  app := "site"
  model := "page"
  pk := some 1
  query _ := none
  form := .ok []

def pageRow (title : Cell) : Row Cell := [("id", .i64 1), ("title", title)]

theorem pageRow_once (title : Cell) : ((pageRow title).map (·.1)).Nodup := by
  simp [pageRow]

theorem page_shown {title : Cell} {value : Value}
    (decoded : pageAdmin.fieldValues (pageRow title) = .ok [("id", .i64 1), ("title", value)]) :
    (adminChangeGet pageSite pageRequest).eval (AdminCall.exec plainAdminServer) (onlyRow "site_page" (pageRow title)) =
      (onlyRow "site_page" (pageRow title),
        .ok (.form ⟨[("id", "1"), ("title", value.display)], [], false, true, []⟩)) := by
  have hread : (pageAdmin.getByPk 1 none).eval (AdminCall.exec plainAdminServer) (onlyRow "site_page" (pageRow title)) =
      (onlyRow "site_page" (pageRow title), .ok (some [("id", .i64 1), ("title", value)])) := by
    refine eval_orFail_eq_ok.mpr ⟨_, scopedPkQueryset_eq (by simp), eval_ask_eq_ok.mpr ⟨[pageRow title], rfl, ?_⟩⟩
    refine eval_orFail_eq_ok.mpr ⟨[[("id", .i64 1), ("title", value)]], ?_, rfl⟩
    rw [List.mapM_cons, decoded]
    rfl
  refine eval_orFail_eq_ok.mpr ⟨(⟨pageAdmin, ⟨1, true, true⟩, none⟩, 1), rfl, eval_orFail_eq_ok.mpr ⟨true, rfl, ?_⟩⟩
  exact Fallible.eval_bind_eq_ok.mpr ⟨_, _, hread, rfl⟩

/-- The form of a page, with the value of its title. -/
def pageForm (title : Cell) (value : Value)
    (decoded : pageAdmin.fieldValues (pageRow title) = .ok [("id", .i64 1), ("title", value)]) :
    ShownForm plainAdminServer pageSite pageRequest (onlyRow "site_page" (pageRow title)) where
  access := ⟨pageAdmin, ⟨1, true, true⟩, none⟩
  pk := 1
  row := pageRow title
  values := [("id", .i64 1), ("title", value)]
  page := ⟨[("id", "1"), ("title", value.display)], [], false, true, []⟩
  authorized _ := rfl
  shown := page_shown decoded
  stored := List.mem_singleton_self _
  scope := rfl
  decoded := decoded
  once := pageRow_once title
  keys := keysDistinct_onlyRow
  tenant _ h := absurd h List.not_mem_nil
  describes := describes_of_derived rfl rfl fun _ => rfl

def pageTitle : FieldMeta := { name := "title", columnName := "title", kind := .text, nullable := true }

/-- A page with a title is saved as it is shown. -/
theorem draft_kept : (pageForm (.text "draft") (.text "draft") rfl).SavesNothing {} ∧
    (pageForm (.text "draft") (.text "draft") rfl).KeepsReadonly {} := by
  refine (untouched_save (pageForm (.text "draft") (.text "draft") rfl) {} (fun _ => rfl) rfl).1 ⟨?_, ?_, ?_⟩
  · exact List.cons_ne_nil _ _
  · intro f hf hauto
    have hf : f ∈ [pageKey, pageTitle] := hf
    obtain rfl | rfl : f = pageKey ∨ f = pageTitle := by simpa using hf
    · cases hauto
    · refine ⟨.text "draft", rfl, fun h => absurd h List.not_mem_nil, ?_⟩
      rw [if_neg (by decide), if_neg List.not_mem_nil]
      exact ⟨rfl, "draft", rfl, by decide⟩
  · exact fun relation h => absurd h List.not_mem_nil

/-- A page without a title is saved with the text that is shown for it. -/
theorem untitled_saved : ¬((pageForm .null .null rfl).SavesNothing {} ∧ (pageForm .null .null rfl).KeepsReadonly {}) := by
  rintro ⟨hsaves, -⟩
  have hmem : pageTitle ∈ pageAdmin.info.fields := List.mem_cons_of_mem pageKey (List.mem_singleton_self pageTitle)
  obtain ⟨v, hparse, hcell, -⟩ := (ShownForm.comesBack_of_savesNothing (fun _ => rfl) hsaves).fields pageTitle hmem rfl
  have htext : parseFieldValue pageTitle (ShownForm.untouched (pageForm .null .null rfl) {} pageTitle.name) =
    some (.ok (.text "-")) := rfl
  cases htext.symm.trans hparse
  cases hcell

end Pages

end Djangors.Admin
