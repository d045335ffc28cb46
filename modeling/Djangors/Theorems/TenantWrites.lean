import Djangors.Theorems.AdminTenancy
import Djangors.Theorems.WriteScope

/-! # Handlers of the admin and tenants

A request of a tenant changes no row of another tenant, unless it stores another value in the tenant field or deletes
what it selects through `delete_selected`. A form that adds a row names the tenant field, and so does the filter of the
tenant. -/

namespace Djangors.Admin
open Db Http Orm Sql
open Migrations (CaseMap)

/-- A request of a user that is not a superuser, on a model with the tenant field. -/
structure TenantRequest [CaseMap] (site : Site) (req : AdminRequest) where
  admin : ModelAdmin
  user : User
  scope : TenantScope
  tenant : Int
  found : findAdmin site req = .ok admin
  auth : req.auth = .ok user
  ordinary : user.isSuperuser = false
  configured : site.tenantScope = some scope
  resolved : scope.extractTenantId req = some tenant
  member : scope.tenantField ∈ memberNames admin.info

/-- The fields of the form that adds a row. -/
def createFields (admin : ModelAdmin) : List FieldMeta := admin.info.fields.filter fun f => !(f.auto || f.primaryKey)

/-- The fields of the form that changes a row. -/
def changeFields (admin : ModelAdmin) : List FieldMeta := admin.info.fields.filter (!·.auto)

/-- The fields of a row of the changelist that a form has a value for. -/
def rowFields (admin : ModelAdmin) (form : FormData) : List FieldMeta :=
  admin.info.fields.filter fun f => !f.auto && (form f.name).isSome

/-- A server that takes every write and every entry of the log, and returns integer keys. -/
structure Permissive (S : AdminServer) (admin : ModelAdmin) : Prop where
  accepts : ∀ before after, S.refuses before after = none
  logs : ∀ entry, S.refusesLog entry = none
  keys : ∀ db row, (∀ cell, row.lookup admin.pk.columnName = some cell → ∃ n, cell = .i64 n) →
    ∃ pk, Server.returnedPk admin.pk.columnName [S.complete db admin.info.tableName row] = .ok pk

namespace TenantRequest
variable [Fmt] [Rest.Parse] [CaseMap] [Calendar] [UnquotedNames] {site : Site} {req : AdminRequest}
  (r : TenantRequest site req)

abbrev field : String := r.scope.tenantField

abbrev filter : TenantFilter := some (r.field, r.tenant)

/-- A call after which the rows of the other tenants are the same. -/
abbrev Keeps (S : AdminServer) (call : AdminCall) (w : World) : Prop :=
  TenantKept site S r.field r.tenant w.tables (call.exec S w).1.tables

/-- The fields of a form are valid, with or without a value for the tenant field. -/
def ValidAdd (form : FormData) : Prop :=
  (∃ values, readForm (createFields r.admin) r.admin.info.relations form = some (.ok values)) ∨
    (form r.field).getD "" = "" ∧ ∃ values, readForm ((createFields r.admin).filter (·.name ≠ r.field))
      (r.admin.info.relations.filter (·.fieldName ≠ r.field)) form = some (.ok values)

/-- A form whose fields are valid adds a row of the tenant. -/
def AddSucceeds : Prop :=
  MayDo site r.user r.admin.info "add" → ∀ pairs, req.form = .ok pairs → r.ValidAdd (formData pairs) →
    ∀ (S : AdminServer) (w : World), Permissive S r.admin → ∃ w' row,
      (serve site .addPost req).eval (AdminCall.exec S) w = (w', .ok (.redirect req.app req.model)) ∧
      w'.tables = Function.update w.tables r.admin.info.tableName (w.tables r.admin.info.tableName ++ [row]) ∧
      S.has (r.admin.column r.field) r.tenant row = true

/-- Whatever the database holds, the rows of the other tenants stay the same, and a valid form adds a row. -/
def Isolated (route : Route) : Prop :=
  (∀ (S : AdminServer) (w : World), KeysDistinct S r.admin w.tables →
    (serve site route req).Always (AdminCall.exec S) (r.Keeps S) w) ∧ (route = .addPost → r.AddSucceeds)

/-- What is stored for a key leaves its row in the tenant; a row of the tenant that has the tenant as its key has no
    other one. -/
def Stays (pk : Int) (values : List (String × Value)) : Prop :=
  ∀ v, values.lookup r.field = some v → v = .i64 r.tenant ∨ r.field = r.admin.pk.name ∧ pk ≠ r.tenant

/-- The request neither stores another tenant, nor names the tenant field twice, nor deletes rows that may be of another
    tenant. A custom action is one that keeps the tenant. -/
def InTenant : Route → Prop
  | .addPost => MayDo site r.user r.admin.info "add" → ∀ pairs, req.form = .ok pairs → r.ValidAdd (formData pairs) →
    r.field = r.admin.pk.name ∧ r.admin.pk.auto = false
  | .changePost => MayDo site r.user r.admin.info "change" → ∀ pk pairs values, req.pk = some pk → req.form = .ok pairs →
    readForm (changeFields r.admin) r.admin.info.relations (formData pairs) = some (.ok values) → r.Stays pk values
  | .saveChangelist => MayDo site r.user r.admin.info "change" → ∀ pairs edited, req.form = .ok pairs →
    edits (r.admin.config.listEditable.getD []) pairs = .ok edited → ∀ pk ∈ edited.map (·.1), ∀ values,
      readForm (rowFields r.admin (editsOf edited pk)) [] (editsOf edited pk) = some (.ok values) → r.Stays pk values
  | .bulkAction => MayDo site r.user r.admin.info "change" → ∀ pairs pks, req.form = .ok pairs →
    selectedPks pairs = .ok pks →
      match (r.admin.config.actions.getD []).find? (·.name = (pairs.lookup "action").getD "") with
      | some action => (action.requiresConfirm = true → isConfirm pairs = true) →
        ∀ (S : AdminServer) (w : World), KeysDistinct S r.admin w.tables →
          (action.handler pks).Always (AdminCall.exec S) (r.Keeps S) w
      | none => (pairs.lookup "action").getD "" = "delete_selected" → isConfirm pairs = true →
        ∀ pk ∈ pks, r.field = r.admin.pk.name ∧ pk = r.tenant
  | _ => True

/-! ### Who is let in -/

omit [Fmt] [Rest.Parse] [Calendar] [UnquotedNames] in
theorem authorize_eq_ok {action : String} {access : Access} : authorize site req action = .ok access ↔
    MayDo site r.user r.admin.info action ∧ access = ⟨r.admin, r.user, r.filter⟩ := by
  have htenant : resolveTenant site req r.user = .ok r.filter := by
    rw [resolveTenant, r.ordinary, r.configured, if_neg (by simp)]
    simp only [r.resolved]
  rw [Admin.authorize_eq_ok]
  constructor
  · rintro ⟨hadmin, hauth, hmay, hfilter⟩
    obtain ⟨admin, user, filter⟩ := access
    obtain rfl := Except.ok.inj (r.found.symm.trans hadmin)
    obtain rfl := Except.ok.inj (r.auth.symm.trans hauth)
    obtain rfl := Except.ok.inj (htenant.symm.trans hfilter)
    exact ⟨hmay, rfl⟩
  · rintro ⟨hmay, rfl⟩
    exact ⟨r.found, r.auth, hmay, htenant⟩

variable {r}

omit [Fmt] [Rest.Parse] [Calendar] [UnquotedNames] in
theorem filter_members : ∀ p ∈ r.filter.toList, p.1 ∈ memberNames r.admin.info := mem_names_of_tenant r.member

omit [Fmt] [Rest.Parse] [Calendar] [UnquotedNames] in
theorem info_mem : r.admin.info ∈ site.models := (site.registered _ (findAdmin_mem r.found)).model

section Kept
variable {S : AdminServer} {w : World} {α β : Type} {p : Handler α} {f : α → Handler β}

omit [Rest.Parse] [Calendar] in
theorem keeps_reads (call : AdminCall) (w : World) (h : call.reads = true) : r.Keeps S call w :=
  .of_eq (congrArg World.tables (exec_reads h))

omit [Rest.Parse] [Calendar] in
theorem keeps_quiet (call : AdminCall) (w : World) (h : call.quiet = true) : r.Keeps S call w :=
  .of_eq (exec_quiet h).1

omit [Rest.Parse] [Calendar] in
theorem always_reads (h : Reads p) : p.Always (AdminCall.exec S) (r.Keeps S) w := h.always keeps_reads

omit [Rest.Parse] [Calendar] in
theorem always_quiet (h : Quiet p) : p.Always (AdminCall.exec S) (r.Keeps S) w := h.always keeps_quiet

variable {pk : Int} {form : FormData}

omit [Calendar] in
theorem keeps_updateTo {values : List (String × Value)} (hnames : (values.map (·.1)).Nodup)
    (hmembers : ∀ p ∈ values, p.1 ∈ memberNames r.admin.info) (hstays : r.Stays pk values) :
    (r.admin.updateTo pk r.filter values).Always (AdminCall.exec S) (r.Keeps S) w := by
  rw [ModelAdmin.updateTo, scopedPkQueryset_eq filter_members]
  refine always_orFail.mpr fun qs hqs => ?_
  cases hqs
  exact always_ask.mpr ⟨tenantKept_runUpdate info_mem r.member hnames hmembers hstays, fun _ _ => trivial⟩

omit [Calendar] in
theorem keeps_updateFromForm (hstays : ∀ values,
    readForm (changeFields r.admin) r.admin.info.relations form = some (.ok values) → r.Stays pk values) :
    (r.admin.updateFromForm pk form r.filter).Always (AdminCall.exec S) (r.Keeps S) w := by
  refine always_orPanic.mpr fun result hresult => ?_
  cases result with
  | error errors => trivial
  | ok values =>
    obtain ⟨hnames, hmembers⟩ := readForm_members List.filter_sublist (List.Sublist.refl _) hresult
    exact keeps_updateTo hnames hmembers (hstays values hresult)

omit [Calendar] in
theorem keeps_updateFieldsFromForm (hstays : ∀ values,
    readForm (rowFields r.admin form) [] form = some (.ok values) → r.Stays pk values) :
    (r.admin.updateFieldsFromForm pk form r.filter).Always (AdminCall.exec S) (r.Keeps S) w := by
  refine always_orPanic.mpr fun result hresult => ?_
  rcases result with errors | _ | ⟨value, values⟩
  · trivial
  · trivial
  · obtain ⟨hnames, hmembers⟩ := readForm_members List.filter_sublist (List.nil_sublist _) hresult
    exact keeps_updateTo hnames hmembers (hstays _ hresult)

omit [Calendar] in
/-- By induction on the keys: each is stored by itself. -/
theorem keeps_saveRows {edited : List (Int × String × String)} {pks : List Int}
    (hstays : ∀ pk ∈ pks, ∀ values, readForm (rowFields r.admin (editsOf edited pk)) [] (editsOf edited pk) =
      some (.ok values) → r.Stays pk values) :
    (saveRows ⟨r.admin, r.user, r.filter⟩ edited pks).Always (AdminCall.exec S) (r.Keeps S) w := by
  induction pks generalizing w with
  | nil => trivial
  | cons pk pks ih =>
    have hrest := fun w => ih (w := w) fun k hk => hstays k (by simp [hk])
    refine Fallible.always_bind.mpr ⟨keeps_updateFieldsFromForm (hstays pk (by simp)), fun result _ => ?_⟩
    cases result with
    | error errors => exact Fallible.always_bind.mpr ⟨hrest _, fun _ _ => trivial⟩
    | ok _ => exact always_quiet_bind keeps_quiet (quiet_logAction ..) fun _ w' _ => hrest w'

omit [Calendar] in
theorem keeps_deleteByPk (hkeys : KeysDistinct S r.admin w.tables) :
    (r.admin.deleteByPk pk r.filter).Always (AdminCall.exec S) (r.Keeps S) w := by
  refine always_deleteByPk keeps_reads fun hrow => ?_
  obtain ⟨row, hmem, qs, hqs, hkeeps⟩ := hrow rfl
  obtain rfl := Except.ok.inj ((scopedPkQueryset_eq filter_members).symm.trans hqs)
  exact tenantKept_deleteByPk info_mem r.member hkeys ⟨row, hmem, hkeeps⟩

omit [Rest.Parse] [Calendar] in
theorem keeps_deleteSelected {pks : List Int} (hown : ∀ pk ∈ pks, r.field = r.admin.pk.name ∧ pk = r.tenant) :
    (r.admin.deleteSelected pks).Always (AdminCall.exec S) (r.Keeps S) w := by
  induction pks generalizing w with
  | nil => trivial
  | cons pk pks ih =>
    obtain ⟨hfield, rfl⟩ := hown _ (List.mem_cons_self ..)
    have hrest := fun w => ih (w := w) fun k hk => hown k (by simp [hk])
    exact always_attempt.mpr ⟨tenantKept_deleteOwn info_mem hfield, fun _ _ => hrest _, fun _ _ => hrest _⟩

omit [Calendar] in
theorem keeps_deleteRows {pks : List Int} (hkeys : KeysDistinct S r.admin w.tables) :
    (deleteRows site ⟨r.admin, r.user, r.filter⟩ pks).Always (AdminCall.exec S) (r.Keeps S) w := by
  induction pks generalizing w with
  | nil => trivial
  | cons pk pks ih =>
    refine always_reads_bind keeps_reads (reads_collectRelatedObjects ..) fun related _ => ?_
    split
    · exact ih hkeys
    · refine Fallible.always_bind.mpr ⟨keeps_deleteByPk hkeys, fun deleted _ => ?_⟩
      have hkeys' : KeysDistinct S r.admin ((r.admin.deleteByPk pk r.filter).eval (AdminCall.exec S) w).1.tables :=
        hkeys.deleteByPk
      cases deleted with
      | false => exact ih hkeys'
      | true =>
        exact always_quiet_bind keeps_quiet (quiet_logAction ..) fun _ w' hw' => ih (hw' ▸ hkeys')

end Kept

/-! ### Adding -/

section Add
variable {S : AdminServer} {w : World} {form : FormData} {values : List (String × Value)}

omit [Fmt] [Rest.Parse] [Calendar] [UnquotedNames] in
theorem pk_not_created (hfield : r.field = r.admin.pk.name) :
    r.field ∉ (createFields r.admin).map (·.name) ++ r.admin.info.relations.map (·.fieldName) := by
  obtain ⟨hpk, hprimary⟩ := r.admin.pk_mem
  obtain ⟨hnodup, -, hdisjoint⟩ := List.nodup_append.mp r.admin.names_nodup
  rw [hfield, List.mem_append, not_or]
  constructor
  · rintro hmem
    obtain ⟨f, hf, hname⟩ := List.mem_map.mp hmem
    obtain ⟨hf, hnot⟩ := List.mem_filter.mp hf
    obtain rfl := List.inj_on_of_nodup_map hnodup hf hpk hname
    rw [hprimary, Bool.or_true] at hnot
    cases hnot
  · exact fun hmem => hdisjoint _ (List.mem_map_of_mem hpk) _ hmem rfl

omit [Fmt] [Calendar] [UnquotedNames] in
theorem created_members (h : readForm (createFields r.admin) r.admin.info.relations form = some (.ok values)) :
    ∀ p ∈ values ++ [(r.field, Value.i64 r.tenant)], p.1 ∈ memberNames r.admin.info := by
  intro p hp
  rcases List.mem_append.mp hp with hp | hp
  · exact (readForm_members List.filter_sublist (List.Sublist.refl _) h).2 p hp
  · rw [List.mem_singleton.mp hp]
    exact r.member

omit [Calendar] in
theorem keeps_createFromForm (hkey : ∀ values, readForm (createFields r.admin) r.admin.info.relations form =
    some (.ok values) → r.field = r.admin.pk.name ∧ r.admin.pk.auto = false) :
    (r.admin.createFromForm form r.filter).Always (AdminCall.exec S) (r.Keeps S) w := by
  refine always_orPanic.mpr fun result hresult => ?_
  cases result with
  | error errors => trivial
  | ok values =>
    obtain ⟨hfield, hauto⟩ := hkey values hresult
    refine always_ask.mpr ⟨?_, fun _ _ => trivial⟩
    refine tenantKept_insertRaw info_mem r.member
      (readForm_members List.filter_sublist (List.Sublist.refl _) hresult).2 ?_ ?_
    · rw [readForm_names hresult]
      exact pk_not_created hfield
    · rw [hfield, ModelAdmin.field?_eq r.admin.pk_mem.1]
      exact hauto

end Add

/-! ### Every route -/

section Serve
variable {S : AdminServer} {w : World}

theorem keeps_addPost (h : r.InTenant .addPost) : (serve site .addPost req).Always (AdminCall.exec S) (r.Keeps S) w := by
  refine always_orFail.mpr fun access haccess => always_orFail.mpr fun pairs hpairs => ?_
  obtain ⟨hmay, rfl⟩ := r.authorize_eq_ok.mp haccess
  refine Fallible.always_bind.mpr ⟨keeps_createFromForm fun values hvalues =>
    h hmay pairs hpairs (.inl ⟨values, hvalues⟩), fun result _ => ?_⟩
  cases result with
  | error errors => trivial
  | ok pk => exact always_quiet_bind keeps_quiet (quiet_logAction ..) fun _ _ _ => trivial

theorem keeps_changePost (h : r.InTenant .changePost) :
    (serve site .changePost req).Always (AdminCall.exec S) (r.Keeps S) w := by
  refine always_orFail.mpr fun (access, pk) haccess => always_orFail.mpr fun pairs hpairs => ?_
  obtain ⟨hpk, haccess⟩ := authorizeRow_eq_ok.mp haccess
  obtain ⟨hmay, rfl⟩ := r.authorize_eq_ok.mp haccess
  refine always_reads_bind keeps_reads (reads_getByPk ..) fun old _ => ?_
  refine Fallible.always_bind.mpr ⟨keeps_updateFromForm fun values hvalues => h hmay pk pairs values hpk hpairs hvalues,
    fun result _ => ?_⟩
  cases result with
  | ok _ => exact always_quiet_bind keeps_quiet (quiet_logAction ..) fun _ _ _ => trivial
  | error errors =>
    refine always_reads_bind keeps_reads (reads_getByPk ..) fun values _ => ?_
    cases values with
    | none => exact always_reads (only_orFail _)
    | some values =>
      exact always_orFail.mpr fun _ _ =>
        always_reads (Fallible.only_bind (reads_buildInlineTables _ _ _) fun _ => trivial)

theorem keeps_saveChangelist (h : r.InTenant .saveChangelist) :
    (serve site .saveChangelist req).Always (AdminCall.exec S) (r.Keeps S) w := by
  refine always_orFail.mpr fun access haccess => always_orFail.mpr fun pairs hpairs => always_orFail.mpr fun edited hedited => ?_
  obtain ⟨hmay, rfl⟩ := r.authorize_eq_ok.mp haccess
  refine Fallible.always_bind.mpr ⟨keeps_saveRows fun pk hpk => h hmay pairs edited hpairs hedited pk ?_, fun _ _ => trivial⟩
  exact List.mem_dedup.mp ((site.iterate_perm _).mem_iff.mp hpk)

theorem keeps_deletePost (hkeys : KeysDistinct S r.admin w.tables) :
    (serve site .deletePost req).Always (AdminCall.exec S) (r.Keeps S) w := by
  refine always_orFail.mpr fun (access, pk) haccess => ?_
  obtain ⟨hmay, rfl⟩ := r.authorize_eq_ok.mp (authorizeRow_eq_ok.mp haccess).2
  refine always_reads_bind keeps_reads (reads_collectRelatedObjects ..) fun related _ => ?_
  split
  · exact always_reads (only_orFail _)
  · refine Fallible.always_bind.mpr ⟨keeps_deleteByPk hkeys, fun deleted _ => ?_⟩
    cases deleted with
    | false => exact always_reads (only_orFail _)
    | true => exact always_quiet_bind keeps_quiet (quiet_logAction ..) fun _ _ _ => trivial

theorem keeps_bulkDelete (hkeys : KeysDistinct S r.admin w.tables) :
    (serve site .bulkDelete req).Always (AdminCall.exec S) (r.Keeps S) w := by
  refine always_orFail.mpr fun access haccess => always_orFail.mpr fun pairs _ => always_orFail.mpr fun pks _ => ?_
  obtain ⟨hmay, rfl⟩ := r.authorize_eq_ok.mp haccess
  split
  · trivial
  · split
    · exact always_reads (Fallible.only_bind (reads_confirmItems _ _) fun _ => trivial)
    · exact Fallible.always_bind.mpr ⟨keeps_deleteRows hkeys, fun _ _ => trivial⟩

theorem keeps_bulkAction (h : r.InTenant .bulkAction) (hkeys : KeysDistinct S r.admin w.tables) :
    (serve site .bulkAction req).Always (AdminCall.exec S) (r.Keeps S) w := by
  refine always_orFail.mpr fun access haccess => always_orFail.mpr fun pairs hpairs => always_orFail.mpr fun pks hpks =>
    always_orFail.mpr fun action haction => ?_
  obtain ⟨hmay, rfl⟩ := r.authorize_eq_ok.mp haccess
  have h := h hmay pairs pks hpairs hpks
  split
  · exact always_reads (Fallible.only_bind (reads_confirmItems _ _) fun _ => trivial)
  · rename_i hconfirm
    have hconfirmed : action.requiresConfirm = true → isConfirm pairs = true := by simpa using hconfirm
    refine Fallible.always_bind.mpr ⟨?_, fun _ _ => always_quiet (Fallible.only_bind (quiet_logAll _ _ _) fun _ => trivial)⟩
    rcases find_action_eq_some.mp (Rest.orElse_eq_ok.mp haction) with hcustom | ⟨hcustom, hname, rfl⟩
    · rw [hcustom] at h
      exact h hconfirmed S w hkeys
    · rw [hcustom] at h
      exact keeps_deleteSelected (h hname (hconfirmed rfl))

/-- A form that does not name the tenant field twice is stored. -/
theorem addSucceeds (h : r.InTenant .addPost) : r.AddSucceeds := by
  intro hmay pairs hpairs hvalid S w hserver
  obtain ⟨hfield, hauto⟩ := h hmay pairs hpairs hvalid
  have hnew := pk_not_created hfield
  have hread : ∃ values, readForm (createFields r.admin) r.admin.info.relations (formData pairs) = some (.ok values) := by
    rcases hvalid with hvalid | ⟨-, hvalid⟩
    · exact hvalid
    · rw [List.mem_append, not_or, List.mem_map, List.mem_map] at hnew
      rwa [List.filter_eq_self.mpr fun f hf => by simpa using fun heq => hnew.1 ⟨f, hf, heq⟩,
        List.filter_eq_self.mpr fun f hf => by simpa using fun heq => hnew.2 ⟨f, hf, heq⟩] at hvalid
  obtain ⟨values, hvalues⟩ := hread
  rw [← readForm_names hvalues] at hnew
  obtain ⟨hnames, hmembers⟩ := readForm_members List.filter_sublist (List.Sublist.refl _) hvalues
  have hauto : (r.admin.info.field? r.field).any (·.auto) = false := by
    rw [hfield, ModelAdmin.field?_eq r.admin.pk_mem.1]
    exact hauto
  have hlookup := lookup_givenRow (v := .i64 r.tenant) hmembers r.member hnew hauto
  -- The columns of the statement are distinct.
  have hnodup : ((givenRow r.admin.info (values ++ [(r.field, .i64 r.tenant)])).map (·.1)).Nodup := by
    refine storedCells_nodup (List.Nodup.sublist (List.filter_sublist.map _) ?_) fun p hp =>
      created_members hvalues p (List.mem_of_mem_filter hp)
    rw [List.map_append, List.nodup_append]
    refine ⟨hnames, List.nodup_singleton _, fun name hname name' hname' heq => hnew ?_⟩
    rw [List.map_singleton, List.mem_singleton] at hname'
    rwa [heq, hname'] at hname
  have hinsert := runInsert_of_accepts w.tables (created_members hvalues) hnodup hserver.accepts
  have hcolumn : r.admin.column r.field = r.admin.pk.columnName := by rw [hfield, ModelAdmin.column_pk]
  obtain ⟨pk, hpk⟩ := hserver.keys w.tables (givenRow r.admin.info (values ++ [(r.field, .i64 r.tenant)])) fun cell hcell => by
    rw [← hcolumn, hlookup] at hcell
    exact ⟨r.tenant, (Option.some.inj hcell).symm⟩
  obtain ⟨row, hrow⟩ : ∃ row, row = S.complete w.tables r.admin.info.tableName
      (givenRow r.admin.info (values ++ [(r.field, .i64 r.tenant)])) := ⟨_, rfl⟩
  have hexec : (AdminCall.insertRaw r.admin.info (values ++ [(r.field, .i64 r.tenant)])).exec S w =
      ({ w with
        tables := Function.update w.tables r.admin.info.tableName (w.tables r.admin.info.tableName ++ [row])
        history := w.history ++ [.inserted r.admin.info row] }, .ok pk) := by
    rw [AdminCall.exec, hinsert, hpk, ← hrow]
    rfl
  have hcreate : (r.admin.createFromForm (formData pairs) r.filter).eval (AdminCall.exec S) w =
      (((AdminCall.insertRaw r.admin.info (values ++ [(r.field, .i64 r.tenant)])).exec S w).1, .ok (.ok pk)) :=
    eval_orPanic_eq_ok.mpr ⟨_, hvalues, eval_ask_eq_ok.mpr ⟨pk, congrArg Prod.snd hexec, rfl⟩⟩
  rw [hexec] at hcreate
  refine ⟨_, row, eval_orFail_eq_ok.mpr ⟨_, r.authorize_eq_ok.mpr ⟨hmay, rfl⟩, eval_orFail_eq_ok.mpr ⟨_, hpairs,
    Fallible.eval_bind_eq_ok.mpr ⟨_, _, hcreate, Fallible.eval_bind_eq_ok.mpr ⟨_, _, eval_logAction (hserver.logs _), rfl⟩⟩⟩⟩,
    rfl, ?_⟩
  rw [hrow]
  exact (has_of_lookup (S.complete_given _ _ _ _ _ hlookup)).mpr rfl

end Serve

end TenantRequest

end Djangors.Admin
