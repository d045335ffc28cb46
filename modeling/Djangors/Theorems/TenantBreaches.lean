import Djangors.Theorems.TenantWrites

/-! # Where a tenant is left

On a server that takes everything, a request that is not kept in its tenant changes a row of another tenant, moves one
there, or fails to add one. -/

namespace Djangors.Admin
open Db Http Orm Sql
open Migrations (CaseMap)

/-- The plain server, with a log that takes every entry. -/
def plainAdminServer : AdminServer where
  toServer := plainServer
  datePart _ _ := none
  text _ := none
  refusesLog _ := none
  equal_i64 a b := by simp [plainServer]
  equal_unique v a b ha hb := by
    simp only [plainServer, Option.some.injEq, beq_iff_eq] at ha hb
    exact Cell.i64.inj (ha.symm.trans hb)
  complete_given _ _ _ _ _ h := h

/-- One row, and an empty log. -/
def onlyRow (t : String) (row : Row Cell) : World := ⟨Function.update (fun _ => []) t [row], [], []⟩

section Plain
variable {column t : String} {n : Int} {row : Row Cell} {admin : ModelAdmin}

theorem plain_has : plainAdminServer.has column n row = true ↔ row.lookup column = some (.i64 n) := by
  rw [AdminServer.has, compares, beq_iff_eq, Option.bind_eq_some_iff]
  constructor
  · rintro ⟨cell, hcell, h⟩
    rw [hcell, beq_iff_eq.mp (Option.some.inj h)]
  · exact fun h => ⟨_, h, congrArg some (beq_self_eq_true _)⟩

theorem permissive_plain : Permissive plainAdminServer admin where
  accepts _ _ := rfl
  logs _ := rfl
  keys db row hrow := by
    show ∃ pk, Server.returnedPk admin.pk.columnName [row] = .ok pk
    cases hcell : row.lookup admin.pk.columnName with
    | none => exact ⟨0, by simp [Server.returnedPk, hcell]⟩
    | some cell =>
      obtain ⟨n, rfl⟩ := hrow cell hcell
      exact ⟨n, by simp [Server.returnedPk, hcell]⟩

theorem keysDistinct_onlyRow {S : AdminServer} : KeysDistinct S admin (onlyRow admin.info.tableName row).tables := by
  simp only [KeysDistinct, onlyRow, Function.update_self]
  exact List.pairwise_singleton _ _

theorem storedCell_eq_i64 {m : ModelMeta} {name : String} {v : Value} : storedCell m name v = .i64 n ↔ v = .i64 n := by
  cases v <;> simp [storedCell, Value.toBindAs, Value.toBind, BindValue.cell]

/-- A field that can be edited on the changelist is read without a panic. -/
theorem parseFieldValue_isSome [Rest.Parse] {f : FieldMeta} (raw : Option String)
    (hkind : f.kind ∈ [.char, .text, .email, .url, .slug, .integer, .bigInt, .float]) : (parseFieldValue f raw).isSome := by
  simp only [List.mem_cons, List.not_mem_nil, or_false] at hkind
  unfold parseFieldValue
  rcases hkind with h | h | h | h | h | h | h | h <;> simp only [h, reduceCtorEq, if_false] <;> split <;>
    first
    | rfl
    | (split <;> rfl)

theorem readForm_isSome [Rest.Parse] {fields : List FieldMeta} {relations : List RelationMeta} {form : FormData}
    (h : ∀ f ∈ fields, (parseFieldValue f (form f.name)).isSome) : ∃ result, readForm fields relations form = some result := by
  have hread : ∃ read, (fields.mapM fun field => (parseFieldValue field (form field.name)).map fun value =>
      (field.name, value)) = some read := by
    induction fields with
    | nil => exact ⟨[], rfl⟩
    | cons f fields ih =>
      obtain ⟨value, hvalue⟩ := Option.isSome_iff_exists.mp (h f (by simp))
      obtain ⟨read, hread⟩ := ih fun g hg => h g (by simp [hg])
      exact ⟨(f.name, value) :: read, by rw [List.mapM_cons, hvalue, hread]; rfl⟩
  obtain ⟨read, hread⟩ := hread
  rw [readForm, hread]
  exact ⟨_, rfl⟩

/-- Only fields of the list are edited. -/
theorem mem_of_edits {editable : List String} {pairs : List (String × String)} {edited : List (Int × String × String)}
    (h : edits editable pairs = .ok edited) {e : Int × String × String} (he : e ∈ edited) : e.2.1 ∈ editable := by
  induction pairs generalizing edited with
  | nil =>
    cases h
    cases he
  | cons pair pairs ih =>
    rw [edits] at h
    split at h
    · obtain ⟨pk, -, h⟩ := Except.bind_eq_ok.mp h
      obtain ⟨rest, hrest, h⟩ := Except.bind_eq_ok.mp h
      cases h
      split at he
      · rename_i hfield
        rcases List.mem_cons.mp he with rfl | he
        · exact hfield
        · exact ih hrest he
      · exact ih hrest he
    · exact ih h he

/-- Without a search and an offset, `all` reads the first rows that the filters keep. -/
theorem fetch_plain [Fmt] {S : Server} {db : Tables Cell} {m : ModelMeta} {qs : QuerySet m} (limit : Nat)
    (hsearch : qs.searchCondition = none) (hoffset : qs.offset = none) (hlimit : qs.limit = some (limit : Int)) :
    S.fetch db (qs.select S.dialect) =
      .ok ((S.arrange (qs.select S.dialect).order ((db m.tableName).filter (qs.keeps S db))).take limit) := by
  rw [fetch_eq hsearch, hlimit, hoffset, Server.limited, if_pos (Int.natCast_nonneg _), Int.toNat_natCast]
  rfl

/-- If the filters keep one row, `all` reads that row. -/
theorem fetch_single [Fmt] {S : Server} {db : Tables Cell} {m : ModelMeta} {qs : QuerySet m} (limit : Nat)
    (hkept : (db m.tableName).filter (qs.keeps S db) = [row]) (hsearch : qs.searchCondition = none)
    (hoffset : qs.offset = none) (hlimit : qs.limit = some ((limit + 1 : Nat) : Int)) :
    S.fetch db (qs.select S.dialect) = .ok [row] := by
  rw [fetch_plain (limit + 1) hsearch hoffset hlimit, hkept, List.perm_singleton.mp (S.arrange_perm _ [row]),
    List.take_succ_cons, List.take_nil]

end Plain

namespace TenantRequest
variable [CaseMap] {site : Site} {req : AdminRequest} {r : TenantRequest site req} {w : World} {row : Row Cell} {pk : Int}
  {values : List (String × Value)}

/-- A model whose rows can all be reached, with a row that can be read for each key of the tenant. -/
structure Plain (r : TenantRequest site req) : Prop where
  objects : r.admin.objects = {}
  readable : ∀ pk, (r.field = r.admin.pk.name → pk = r.tenant) → ∃ row : Row Cell,
    row.lookup r.admin.pk.columnName = some (.i64 pk) ∧ row.lookup (r.admin.column r.field) = some (.i64 r.tenant) ∧
      ∃ values, r.admin.fieldValues row = .ok values

/-- The row with a key that is in the tenant. -/
structure OwnRow (r : TenantRequest site req) (pk : Int) (row : Row Cell) : Prop where
  key : row.lookup r.admin.pk.columnName = some (.i64 pk)
  tenant : row.lookup (r.admin.column r.field) = some (.i64 r.tenant)

/-- The values move a row with the key out of the tenant. -/
theorem exists_of_not_stays (h : ¬r.Stays pk values) :
    ∃ v, values.lookup r.field = some v ∧ v ≠ .i64 r.tenant ∧ (r.field = r.admin.pk.name → pk = r.tenant) := by
  simp only [Stays, not_forall, not_or, not_and, not_not] at h
  obtain ⟨v, hv, hne, hkey⟩ := h
  exact ⟨v, hv, hne, hkey⟩

variable [Fmt]

theorem OwnRow.keeps_iff {k : Int} {db : Tables Cell} (h : r.OwnRow pk row) (hobjects : r.admin.objects = {}) :
    (scopedTo r.admin k r.filter).keeps plainServer db row = true ↔ k = pk := by
  have hall : ({} : QuerySet r.admin.info).keeps plainAdminServer.toServer db row = true := rfl
  rw [show plainServer = plainAdminServer.toServer from rfl, keeps_scopedTo _ _ filter_members, hobjects, hall,
    Bool.true_and, Option.toList_some, List.all_cons, List.all_nil, Bool.and_true, Bool.and_eq_true, plain_has, plain_has,
    h.key, h.tenant, Option.some.injEq, Cell.i64.injEq]
  exact ⟨fun heq => heq.1.symm, fun heq => ⟨heq.symm, rfl⟩⟩

variable [UnquotedNames]

/-- An update of the only row that does not leave it in the tenant moves it to another one. -/
theorem not_keeps_update (hobjects : r.admin.objects = {}) (hrow : r.OwnRow pk row)
    (hw : w.tables = (onlyRow r.admin.info.tableName row).tables) (hnames : (values.map (·.1)).Nodup)
    (hmembers : ∀ p ∈ values, p.1 ∈ memberNames r.admin.info) (hmoves : ¬r.Stays pk values) :
    ¬r.Keeps plainAdminServer (.update _ (scopedTo r.admin pk r.filter) (literals values)) w := by
  obtain ⟨v, hv, hne, -⟩ := exists_of_not_stays hmoves
  have hvalues : values ≠ [] := by
    rintro rfl
    cases hv
  obtain ⟨n, hrun⟩ := runUpdate_of_accepts plainAdminServer w.tables
    (scopedTo r.admin pk r.filter) hmembers hvalues fun _ _ => rfl
  have hassigned : assigned plainAdminServer w.tables (scopedTo r.admin pk r.filter) values row =
      row.setAll (storedCells r.admin.info values) := if_pos ((hrow.keeps_iff hobjects).mpr rfl)
  have htable : w.tables r.admin.info.tableName = [row] := by simp only [hw, onlyRow, Function.update_self]
  have hafter : (row.setAll (storedCells r.admin.info values)).lookup (r.admin.column r.field) ≠ some (.i64 r.tenant) := by
    rw [Row.lookup_setAll (storedCells_nodup hnames hmembers), lookup_storedCells hmembers r.member, hrow.tenant, hv]
    exact fun heq => hne (storedCell_eq_i64.mp (Option.some.inj heq))
  intro hkept
  have hkept := hkept r.admin.info info_mem r.member
  simp only [AdminCall.exec, hrun, World.write, Function.update_self, htable, List.map_singleton, hassigned] at hkept
  have hbefore : plainAdminServer.has (r.admin.column r.field) r.tenant row = true := plain_has.mpr hrow.tenant
  rw [List.filter_singleton, List.filter_singleton, ← ModelAdmin.column, hbefore,
    Bool.eq_false_iff.mpr fun h => hafter (plain_has.mp h)] at hkept
  cases hkept

theorem always_updateTo (h : (r.admin.updateTo pk r.filter values).Always (AdminCall.exec plainAdminServer)
    (r.Keeps plainAdminServer) w) :
    r.Keeps plainAdminServer (.update _ (scopedTo r.admin pk r.filter) (literals values)) w := by
  rw [ModelAdmin.updateTo, scopedPkQueryset_eq filter_members] at h
  exact (always_ask.mp (always_orFail.mp h _ rfl)).1

/-- The only row is read by its key. -/
theorem eval_getByPk {decoded : List (String × Value)} (hobjects : r.admin.objects = {}) (hrow : r.OwnRow pk row)
    (hw : w.tables = (onlyRow r.admin.info.tableName row).tables) (hdecoded : r.admin.fieldValues row = .ok decoded) :
    (r.admin.getByPk pk r.filter).eval (AdminCall.exec plainAdminServer) w = (w, .ok (some decoded)) := by
  have htable : w.tables r.admin.info.tableName = [row] := by simp only [hw, onlyRow, Function.update_self]
  have hfetch : plainAdminServer.fetch w.tables (((scopedTo r.admin pk r.filter).withLimit 2).select plainAdminServer.dialect) =
      .ok [row] := by
    have hnoSearch : (scopedTo r.admin pk r.filter).searchCondition = none := by rw [scopedTo, hobjects]
    have hnoOffset : (scopedTo r.admin pk r.filter).offset = none := by rw [scopedTo, hobjects]
    have hkept : (w.tables r.admin.info.tableName).filter (QuerySet.keeps plainAdminServer.toServer w.tables
        ((scopedTo r.admin pk r.filter).withLimit 2)) = [row] := by
      rw [htable, List.filter_singleton]
      exact congrArg (cond · [row] []) ((hrow.keeps_iff hobjects).mpr rfl)
    exact fetch_single 1 hkept hnoSearch hnoOffset rfl
  refine eval_orFail_eq_ok.mpr ⟨_, scopedPkQueryset_eq filter_members, eval_ask_eq_ok.mpr ⟨[row], ?_, ?_⟩⟩
  · rw [AdminCall.exec, hfetch]
    rfl
  · refine eval_orFail_eq_ok.mpr ⟨[decoded], ?_, rfl⟩
    rw [List.mapM_cons, hdecoded]
    rfl

variable [Rest.Parse] [Calendar]

theorem inTenant_changePost (hplain : r.Plain) (h : r.Isolated .changePost) : r.InTenant .changePost := by
  intro hmay pk pairs values hpk hpairs hvalues
  by_contra hmoves
  obtain ⟨-, -, -, hkey⟩ := exists_of_not_stays hmoves
  obtain ⟨row, hrowKey, hrowTenant, decoded, hdecoded⟩ := hplain.readable pk hkey
  have hrow : r.OwnRow pk row := ⟨hrowKey, hrowTenant⟩
  have halways := h.1 plainAdminServer (onlyRow r.admin.info.tableName row) keysDistinct_onlyRow
  have halways := always_orFail.mp halways _ (authorizeRow_eq_ok.mpr ⟨hpk, r.authorize_eq_ok.mpr ⟨hmay, rfl⟩⟩)
  have halways := always_orFail.mp halways _ hpairs
  have hread := eval_getByPk (w := onlyRow r.admin.info.tableName row) hplain.objects hrow rfl hdecoded
  have halways := (Fallible.always_bind.mp halways).2 (some decoded) (congrArg Prod.snd hread)
  rw [hread] at halways
  have hupdate := always_updateTo (always_orPanic.mp (Fallible.always_bind.mp halways).1 _ hvalues)
  obtain ⟨hnames, hmembers⟩ := readForm_members List.filter_sublist (List.Sublist.refl _) hvalues
  exact not_keeps_update hplain.objects hrow rfl hnames hmembers hmoves hupdate

/-- An edit of another key leaves the only row. -/
theorem eval_updateFieldsFromForm {k : Int} {form : FormData} (hobjects : r.admin.objects = {}) (hrow : r.OwnRow pk row)
    (hw : w.tables = (onlyRow r.admin.info.tableName row).tables) (hother : k ≠ pk)
    (hread : ∃ result, readForm (rowFields r.admin form) [] form = some result) :
    ∃ w' result, (r.admin.updateFieldsFromForm k form r.filter).eval (AdminCall.exec plainAdminServer) w = (w', .ok result) ∧
      w'.tables = w.tables := by
  obtain ⟨result, hread⟩ := hread
  have hform : readForm (r.admin.info.fields.filter fun f => !f.auto && (form f.name).isSome) [] form = some result := hread
  rcases result with errors | _ | ⟨value, values⟩
  · exact ⟨w, .error errors, eval_orPanic_eq_ok.mpr ⟨_, hform, rfl⟩, rfl⟩
  · exact ⟨w, .ok (), eval_orPanic_eq_ok.mpr ⟨_, hform, rfl⟩, rfl⟩
  · obtain ⟨-, hmembers⟩ := readForm_members List.filter_sublist (List.nil_sublist _) hread
    obtain ⟨n, hrun⟩ := runUpdate_of_accepts plainAdminServer w.tables
      (scopedTo r.admin k r.filter) hmembers (List.cons_ne_nil _ _) fun _ _ => rfl
    have htable : w.tables r.admin.info.tableName = [row] := by simp only [hw, onlyRow, Function.update_self]
    have hassigned : assigned plainAdminServer w.tables (scopedTo r.admin k r.filter) (value :: values) row = row :=
      if_neg fun hkeeps => hother ((hrow.keeps_iff hobjects).mp hkeeps)
    have hsame : Function.update w.tables r.admin.info.tableName [row] = w.tables := by
      rw [← htable, Function.update_eq_self]
    rw [htable, List.map_singleton, hassigned, hsame] at hrun
    have hexec : (AdminCall.update _ (scopedTo r.admin k r.filter) (literals (value :: values))).exec plainAdminServer w =
        (w.write (.ok (w.tables, changes r.admin.info [row] [row], n))) := by rw [AdminCall.exec, hrun]
    refine ⟨((AdminCall.update _ (scopedTo r.admin k r.filter) (literals (value :: values))).exec plainAdminServer w).1,
      .ok (), eval_orPanic_eq_ok.mpr ⟨_, hform, ?_⟩, ?_⟩
    · exact eval_orFail_eq_ok.mpr ⟨_, scopedPkQueryset_eq filter_members,
        eval_ask_eq_ok.mpr ⟨n, congrArg Prod.snd hexec, rfl⟩⟩
    · exact congrArg (fun result => result.1.tables) hexec

/-- By induction on the keys: those before the key leave the only row. -/
theorem not_keeps_saveRows {edited : List (Int × String × String)} {keys : List Int} (hobjects : r.admin.objects = {})
    (hrow : r.OwnRow pk row) (hw : w.tables = (onlyRow r.admin.info.tableName row).tables)
    (hread : ∀ k, ∃ result, readForm (rowFields r.admin (editsOf edited k)) [] (editsOf edited k) = some result)
    (hvalues : readForm (rowFields r.admin (editsOf edited pk)) [] (editsOf edited pk) = some (.ok values))
    (hmoves : ¬r.Stays pk values) (hkey : pk ∈ keys) :
    ¬(saveRows ⟨r.admin, r.user, r.filter⟩ edited keys).Always (AdminCall.exec plainAdminServer)
      (r.Keeps plainAdminServer) w := by
  induction keys generalizing w with
  | nil => cases hkey
  | cons k keys ih =>
    intro halways
    by_cases heq : k = pk
    · subst heq
      obtain ⟨hnames, hmembers⟩ := readForm_members List.filter_sublist (List.nil_sublist _) hvalues
      have hupdate := always_orPanic.mp (Fallible.always_bind.mp halways).1 _ hvalues
      cases values with
      | nil => exact hmoves fun v hv => by cases hv
      | cons value values => exact not_keeps_update hobjects hrow hw hnames hmembers hmoves (always_updateTo hupdate)
    · have hkey := (List.mem_cons.mp hkey).resolve_left (Ne.symm heq)
      obtain ⟨w', result, hedit, hw'⟩ := eval_updateFieldsFromForm hobjects hrow hw heq (hread k)
      have halways := (Fallible.always_bind.mp halways).2 result (congrArg Prod.snd hedit)
      rw [hedit] at halways
      cases result with
      | error errors => exact ih (hw'.trans hw) hkey (Fallible.always_bind.mp halways).1
      | ok _ =>
        have hlog : (logAction r.user r.admin.info k actionChange "Changed." none).eval (AdminCall.exec plainAdminServer)
            w' = _ := eval_logAction rfl
        have halways := (Fallible.always_bind.mp halways).2 () (congrArg Prod.snd hlog)
        rw [hlog] at halways
        refine ih ?_ hkey halways
        exact hw'.trans hw

section Selected
variable {other : Row Cell}

/-- The row with a key is of another tenant. -/
structure OtherRow (r : TenantRequest site req) (pk : Int) (row : Row Cell) : Prop where
  key : row.lookup r.admin.pk.columnName = some (.i64 pk)
  tenant : row.lookup (r.admin.column r.field) ≠ some (.i64 r.tenant)

omit [Fmt] [UnquotedNames] [Rest.Parse] [Calendar] in
theorem exists_otherRow (h : ¬(r.field = r.admin.pk.name ∧ pk = r.tenant)) : ∃ row, r.OtherRow pk row := by
  refine ⟨[(r.admin.pk.columnName, .i64 pk)], by simp, ?_⟩
  by_cases hfield : r.field = r.admin.pk.name
  · have hcolumn : r.admin.column r.field = r.admin.pk.columnName := by rw [hfield, ModelAdmin.column_pk]
    rw [hcolumn, List.lookup_cons_self, ne_eq, Option.some.injEq, Cell.i64.injEq]
    exact fun hpk => h ⟨hfield, hpk⟩
  · have hcolumn : r.admin.column r.field ≠ r.admin.pk.columnName := by
      rw [← ModelAdmin.column_pk]
      exact fun heq => hfield (ModelAdmin.column_inj r.member ModelAdmin.pk_name_mem heq)
    simp [List.lookup_cons, beq_eq_false_iff_ne.mpr hcolumn]

omit [Rest.Parse] [Calendar] in
/-- By induction on the keys: those before the key delete nothing. -/
theorem not_keeps_deleteSelected {pks : List Int} (hother : r.OtherRow pk other)
    (hw : w.tables = (onlyRow r.admin.info.tableName other).tables) (hpk : pk ∈ pks) :
    ¬(r.admin.deleteSelected pks).Always (AdminCall.exec plainAdminServer) (r.Keeps plainAdminServer) w := by
  have htable : w.tables r.admin.info.tableName = [other] := by simp only [hw, onlyRow, Function.update_self]
  induction pks generalizing w with
  | nil => cases hpk
  | cons k pks ih =>
    intro halways
    obtain ⟨hdelete, hnext, -⟩ := always_attempt.mp halways
    obtain ⟨n, hrun⟩ := runDeleteByPk_of_accepts (S := plainAdminServer) w.tables r.admin k fun _ _ => rfl
    have hexec := exec_deleteByPk_eq hrun
    by_cases heq : k = pk
    · subst heq
      have hkept := hdelete r.admin.info info_mem r.member
      have hgone : plainAdminServer.has r.admin.pk.columnName k other = true := plain_has.mpr hother.key
      have hforeign : plainAdminServer.has (r.admin.column r.field) r.tenant other = false :=
        Bool.eq_false_iff.mpr fun h => hother.tenant (plain_has.mp h)
      rw [hexec] at hkept
      simp only [Function.update_self, htable, List.filter_singleton, hgone] at hkept
      rw [← ModelAdmin.column, hforeign] at hkept
      cases hkept
    · have hkey := (List.mem_cons.mp hpk).resolve_left (Ne.symm heq)
      have hstays : plainAdminServer.has r.admin.pk.columnName k other = false := by
        rw [Bool.eq_false_iff, ne_eq, plain_has, hother.key, Option.some.injEq, Cell.i64.injEq]
        exact Ne.symm heq
      have hsame : ((AdminCall.deleteByPk r.admin.info k).exec plainAdminServer w).1.tables = w.tables := by
        rw [hexec]
        simp only [htable, List.filter_singleton, hstays, Bool.not_false]
        rw [cond_true, ← htable, Function.update_eq_self]
      exact ih (hsame.trans hw) hkey (hsame ▸ htable) (hnext n (congrArg Prod.snd hexec))

theorem inTenant_bulkAction (h : r.Isolated .bulkAction) : r.InTenant .bulkAction := by
  intro hmay pairs pks hpairs hpks
  have hreached (S : AdminServer) (w : World) (hkeys : KeysDistinct S r.admin w.tables) {action : AdminAction}
      (hfind : r.admin.actions.find? (·.name = (pairs.lookup "action").getD "") = some action)
      (hconfirmed : action.requiresConfirm = true → isConfirm pairs = true) :
      (action.handler pks).Always (AdminCall.exec S) (r.Keeps S) w := by
    have halways := always_orFail.mp (h.1 S w hkeys) _ (r.authorize_eq_ok.mpr ⟨hmay, rfl⟩)
    have halways := always_orFail.mp (always_orFail.mp halways _ hpairs) _ hpks
    have halways := always_orFail.mp halways _ (Rest.orElse_eq_ok.mpr hfind)
    have hgo : (action.requiresConfirm && !isConfirm pairs) = false := by
      cases hrequires : action.requiresConfirm with
      | false => rfl
      | true => simp [hconfirmed hrequires]
    rw [hgo] at halways
    exact (Fallible.always_bind.mp halways).1
  cases hcustom : (r.admin.config.actions.getD []).find? (·.name = (pairs.lookup "action").getD "") with
  | some action =>
    intro hconfirmed S w hkeys
    exact hreached S w hkeys (find_action_eq_some.mpr (.inl hcustom)) hconfirmed
  | none =>
    intro hname hconfirm pk hpk
    by_contra hforeign
    obtain ⟨other, hother⟩ := exists_otherRow hforeign
    exact not_keeps_deleteSelected hother rfl hpk (hreached plainAdminServer (onlyRow r.admin.info.tableName other)
      keysDistinct_onlyRow (find_action_eq_some.mpr (.inr ⟨hcustom, hname, rfl⟩)) fun _ => hconfirm)

end Selected

omit [Fmt] [UnquotedNames] [Calendar] in
/-- A tenant field that is not the primary key stands in the form. -/
theorem mem_form_of_ne_pk {form : FormData} (hauto : (r.admin.info.field? r.field).any (·.auto) = false)
    (hfield : r.field ≠ r.admin.pk.name)
    (hvalues : readForm (createFields r.admin) r.admin.info.relations form = some (.ok values)) :
    r.field ∈ values.map (·.1) := by
  rw [readForm_names hvalues, List.mem_append]
  refine (List.mem_append.mp r.member).imp_left fun hmem => ?_
  obtain ⟨f, hf, hname⟩ : ∃ f ∈ r.admin.info.fields, f.name = r.field := List.mem_map.mp hmem
  refine List.mem_map.mpr ⟨f, List.mem_filter.mpr ⟨hf, ?_⟩, hname⟩
  have hnotAuto : f.auto = false := by
    rw [← hname, ModelAdmin.field?_eq hf] at hauto
    exact hauto
  have hnotPrimary : f.primaryKey = false := by
    refine Bool.eq_false_iff.mpr fun hprimary => hfield ?_
    have hmem : f ∈ r.admin.info.fields.filter (·.primaryKey) := List.mem_filter.mpr ⟨hf, hprimary⟩
    rw [r.admin.primary, List.mem_singleton] at hmem
    rw [← hname, hmem]
  rw [hnotAuto, hnotPrimary]
  rfl

omit [Fmt] [UnquotedNames] [Calendar] in
/-- A tenant field that is stored and named once is the key. -/
theorem key_of_insertable {form : FormData}
    (hvalues : readForm (createFields r.admin) r.admin.info.relations form = some (.ok values))
    (hstored : (givenRow r.admin.info (values ++ [(r.field, .i64 r.tenant)])).lookup (r.admin.column r.field) =
      some (.i64 r.tenant))
    (hnodup : ((givenRow r.admin.info (values ++ [(r.field, .i64 r.tenant)])).map (·.1)).Nodup) :
    r.field = r.admin.pk.name ∧ r.admin.pk.auto = false := by
  have hmembers : ∀ p ∈ insertable r.admin.info (values ++ [(r.field, Value.i64 r.tenant)]), p.1 ∈ memberNames r.admin.info :=
    fun p hp => created_members hvalues p (List.mem_of_mem_filter hp)
  rw [givenRow, lookup_storedCells hmembers r.member] at hstored
  obtain ⟨v, hv, -⟩ := Option.map_eq_some_iff.mp hstored
  obtain ⟨before, after, hinsertable, -⟩ := List.lookup_eq_some_iff.mp hv
  have hauto : (r.admin.info.field? r.field).any (·.auto) = false := by
    have hmem : (r.field, v) ∈ insertable r.admin.info (values ++ [(r.field, Value.i64 r.tenant)]) := by
      rw [hinsertable]
      simp
    simpa using (List.mem_filter.mp hmem).2
  by_cases hfield : r.field = r.admin.pk.name
  · refine ⟨hfield, ?_⟩
    rw [hfield, ModelAdmin.field?_eq r.admin.pk_mem.1] at hauto
    exact hauto
  · -- The form has the field too.
    have hform := mem_form_of_ne_pk hauto hfield hvalues
    have hinsertable : insertable r.admin.info (values ++ [(r.field, Value.i64 r.tenant)]) =
        insertable r.admin.info values ++ [(r.field, Value.i64 r.tenant)] := by
      rw [insertable, List.filter_append, List.filter_singleton]
      simp [hauto, insertable]
    obtain ⟨p, hp, hname⟩ := List.mem_map.mp hform
    have hkept : p ∈ insertable r.admin.info values := by
      refine List.mem_filter.mpr ⟨hp, ?_⟩
      show (!(r.admin.info.field? p.1).any (·.auto)) = true
      rw [hname, hauto]
      rfl
    rw [givenRow, storedCells_columns, hinsertable, List.map_append, List.map_append] at hnodup
    refine absurd rfl ((List.nodup_append.mp hnodup).2.2 (r.admin.column r.field) ?_ (r.admin.column r.field) ?_)
    · exact List.mem_map.mpr ⟨r.field, List.mem_map.mpr ⟨p, hkept, hname⟩, rfl⟩
    · simp

omit [Calendar] in
/-- What the plain server inserts names the tenant field once. -/
theorem insertRaw_plain {form : FormData} {w' : World} {key : Int}
    (hvalues : readForm (createFields r.admin) r.admin.info.relations form = some (.ok values))
    (hexec : (AdminCall.insertRaw r.admin.info (values ++ [(r.field, .i64 r.tenant)])).exec plainAdminServer w = (w', .ok key)) :
    w'.tables = Function.update w.tables r.admin.info.tableName (w.tables r.admin.info.tableName ++
        [givenRow r.admin.info (values ++ [(r.field, .i64 r.tenant)])]) ∧
      ((givenRow r.admin.info (values ++ [(r.field, .i64 r.tenant)])).map (·.1)).Nodup := by
  rw [AdminCall.exec] at hexec
  cases hrun : (QuerySet.insertRaw r.admin.info (values ++ [(r.field, .i64 r.tenant)])).bind
      (AdminCall.runInsert plainAdminServer w.tables r.admin.info) with
  | error e => rw [hrun] at hexec; cases hexec
  | ok result =>
    obtain ⟨after, effects, answer⟩ := result
    obtain ⟨rfl, -, -, hnodup⟩ := runInsert_eq_ok (created_members hvalues) hrun
    rw [hrun] at hexec
    exact ⟨(congrArg (fun result => result.1.tables) hexec).symm, hnodup rfl⟩

theorem inTenant_addPost (h : r.AddSucceeds) : r.InTenant .addPost := by
  intro hmay pairs hpairs hvalid
  obtain ⟨w', row, heval, htables, hhas⟩ := h hmay pairs hpairs hvalid plainAdminServer ⟨fun _ => [], [], []⟩ permissive_plain
  obtain ⟨access, haccess, heval⟩ := eval_orFail_eq_ok.mp heval
  obtain ⟨-, rfl⟩ := r.authorize_eq_ok.mp haccess
  obtain ⟨pairs', hpairs', heval⟩ := eval_orFail_eq_ok.mp heval
  obtain rfl := Except.ok.inj (hpairs.symm.trans hpairs')
  obtain ⟨u, result, hcreate, heval⟩ := Fallible.eval_bind_eq_ok.mp heval
  obtain ⟨read, hread, hcreate⟩ := eval_orPanic_eq_ok.mp hcreate
  rcases read with errors | values
  · cases hcreate
    cases heval
  · obtain ⟨key, hkey, hcreate⟩ := eval_ask_eq_ok.mp hcreate
    cases hcreate
    obtain ⟨_, _, hlog, heval⟩ := Fallible.eval_bind_eq_ok.mp heval
    cases heval
    have hquiet := (congrArg (fun result => result.1.tables) hlog).symm.trans
      (eval_quiet (quiet_logAction key r.user r.admin.info actionAddition "Added." none)).1
    obtain ⟨hafter, hnodup⟩ := insertRaw_plain hread (Prod.ext rfl hkey)
    have htable := congrFun (htables.symm.trans (hquiet.trans hafter)) r.admin.info.tableName
    simp only [Function.update_self, List.nil_append, List.cons.injEq, and_true] at htable
    rw [htable, plain_has] at hhas
    exact key_of_insertable hread hhas hnodup

theorem inTenant_saveChangelist (hplain : r.Plain) (h : r.Isolated .saveChangelist) : r.InTenant .saveChangelist := by
  intro hmay pairs edited hpairs hedited pk hpk values hvalues
  by_contra hmoves
  obtain ⟨-, -, -, hkey⟩ := exists_of_not_stays hmoves
  obtain ⟨row, hrowKey, hrowTenant, -⟩ := hplain.readable pk hkey
  have halways := h.1 plainAdminServer (onlyRow r.admin.info.tableName row) keysDistinct_onlyRow
  have halways := always_orFail.mp halways _ (r.authorize_eq_ok.mpr ⟨hmay, rfl⟩)
  have halways := always_orFail.mp (always_orFail.mp halways _ hpairs) _ hedited
  refine not_keeps_saveRows hplain.objects ⟨hrowKey, hrowTenant⟩ rfl (fun k => readForm_isSome fun f hf => ?_) hvalues hmoves
    ((site.iterate_perm _).mem_iff.mpr (List.mem_dedup.mpr hpk)) (Fallible.always_bind.mp halways).1
  -- A field with a value is one of the list.
  obtain ⟨hf, hgiven⟩ := List.mem_filter.mp hf
  rw [Bool.and_eq_true] at hgiven
  obtain ⟨value, hvalue⟩ := Option.isSome_iff_exists.mp hgiven.2
  obtain ⟨before, after, hlookup, -⟩ := List.lookup_eq_some_iff.mp hvalue
  have hentry : (f.name, value) ∈ ((edited.filter (·.1 = k)).map (·.2)).reverse := by rw [hlookup]; simp
  obtain ⟨e, he, hname⟩ := List.mem_map.mp (List.mem_reverse.mp hentry)
  have hmem := mem_of_edits hedited (List.mem_of_mem_filter he)
  rw [congrArg Prod.fst hname] at hmem
  obtain ⟨g, hg, hgname, hkind⟩ := (site.registered _ (findAdmin_mem r.found)).list_editable _ hmem
  obtain rfl := List.inj_on_of_nodup_map (List.nodup_append.mp r.admin.names_nodup).1 hg hf hgname
  exact parseFieldValue_isSome _ hkind

end TenantRequest

/-! ### Notes of two tenants -/

section Notes

@[reducible] def noNumbers : Rest.Parse := ⟨fun _ => none, fun _ => none, fun _ => none⟩

@[reducible] def noDays : Calendar := ⟨fun _ _ _ => none, fun _ => none⟩

@[reducible] def verbatim : UnquotedNames := ⟨fun t c => .ok (t, c)⟩

attribute [local instance] CaseMap.ascii Fmt.decimal noNumbers noDays verbatim

def noteId : FieldMeta where
  name := "id"
  columnName := "id"
  kind := .bigInt
  primaryKey := true
  auto := true

def noteMeta : ModelMeta where
  structName := "Note"
  appLabel := "notes"
  tableName := "notes_note"
  fields := [noteId, { name := "tenant_id", columnName := "tenant_id", kind := .bigInt },
    { name := "title", columnName := "title", kind := .char }]

theorem noteMeta_names : (memberNames noteMeta).Nodup ∧
    (noteMeta.fields.map (·.columnName) ++ noteMeta.relations.map (·.fieldName)).Nodup ∧
      ∀ name ∈ memberNames noteMeta, splitFieldLookup name = (name, "eq") := by
  refine ⟨?_, ?_, ?_⟩ <;> decide

/-- The value of a cell of a note. -/
def noteValue : Cell → Value
  | .i64 v => .i64 v
  | .text v => .text v
  | _ => .null

def noteAdmin : ModelAdmin where
  info := noteMeta
  pk := noteId
  primary := rfl
  objects := {}
  fieldNames := ["id", "tenant_id", "title"]
  fieldValues row := .ok (row.map fun (name, cell) => (name, noteValue cell))
  config := {}
  names_nodup := noteMeta_names.1
  columns_nodup := noteMeta_names.2.1
  names_plain := noteMeta_names.2.2

theorem changeNote_lt : ∀ p ∈ [(⟨1, "notes.change_note"⟩ : Guardian.Permission)], p.id < 2 := by
  simp

def notePermissions : Guardian.Tables where
  permissions := ⟨⟨[⟨1, "notes.change_note"⟩], 2, List.nodup_singleton _, changeNote_lt⟩, List.nodup_singleton _⟩
  userPermissions := [⟨5, 1⟩]
  userGroups := []
  groupPermissions := []
  objectPermissions := .empty

theorem noteAdmin_registered : ∀ admin ∈ [noteAdmin], Registered [noteMeta] admin := by
  simp only [List.mem_singleton, forall_eq]
  constructor <;> simp [noteAdmin]

/-- Requests are for the tenant 1. -/
def noteScope : TenantScope := ⟨"tenant_id", fun _ => some 1⟩

def noteSite : Site where
  admins := [noteAdmin]
  tenantScope := some noteScope
  models := [noteMeta]
  target _ := noteMeta
  permissions := notePermissions
  iterate keys := keys
  iterate_perm _ := .refl _
  registered := noteAdmin_registered
  tables_nodup := List.nodup_singleton _

/-- The user 5, who may change notes, sends a form. -/
def noteRequest (pairs : List (String × String)) : AdminRequest where
  auth := .ok ⟨5, true, false⟩
  app := "notes"
  model := "note"
  pk := some 7
  query _ := none
  form := .ok pairs

def noteTenant (pairs : List (String × String)) : TenantRequest noteSite (noteRequest pairs) where
  admin := noteAdmin
  user := ⟨5, true, false⟩
  scope := noteScope
  tenant := 1
  found := rfl
  auth := rfl
  ordinary := rfl
  configured := rfl
  resolved := rfl
  member := by decide

theorem mayChangeNotes : MayDo noteSite ⟨5, true, false⟩ noteMeta "change" := ⟨rfl, .inr rfl⟩

end Notes

end Djangors.Admin
