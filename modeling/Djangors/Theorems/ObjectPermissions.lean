import Djangors.Guardian.ObjectPermission
import Mathlib.Data.List.ProdSigma

/-! # Grants and revokes side by side

A call changes the table in its last statement, and then leaves a row of its own target, or none. The other targets keep
theirs: two targets that differ in no column of the row differ in the codename, and so in the permission. -/

namespace Djangors.Guardian
open Auth (AuthError)
open Orm (OrmError)

/-! ### The check -/

section Check
variable {tables : Tables} {target : Target}

theorem run_query {α : Type} (call : GuardianCall) (next : call.Result → GuardianAction α) (tables : Tables) :
    (query call next).run GuardianCall.step [] tables =
      (next (call.exec tables).2).run GuardianCall.step [] (call.exec tables).1 := rfl

theorem run_hasPerm (tables : Tables) (userId : Int) (codename : String) :
    (hasPerm userId codename).run GuardianCall.step [] tables = (tables, .ok (0 < tables.countUserPermissions userId codename ∨
      0 < tables.countGroupPermissions userId codename : Bool)) := by
  rw [hasPerm, run_query]
  by_cases hdirect : 0 < tables.countUserPermissions userId codename
  · simp only [GuardianCall.exec, hdirect, if_true, Program.run_done, true_or, decide_true]
  · simp only [GuardianCall.exec, hdirect, if_false, run_query, Program.run_done, false_or]
    rfl

theorem hasPerm_eq_true {userId : Int} {codename : String} : tables.hasPerm userId codename = .ok true ↔
    0 < tables.countUserPermissions userId codename ∨ 0 < tables.countGroupPermissions userId codename := by
  rw [Tables.hasPerm, run_hasPerm, Except.ok.injEq, decide_eq_true_iff]

/-- A target is granted: a row has its columns, and a permission with its codename. -/
def Granted (tables : Tables) (target : Target) : Prop :=
  ∃ row ∈ tables.objectPermissions.rows, ∃ p ∈ tables.permissions.rows, p.codename = target.codename ∧
    row.grants p.id target = true

theorem grants_iff {row : ObjectPermission} {permission : Int} :
    row.grants permission target = true ↔ row.permission = permission ∧ row.isOn target = true :=
  decide_eq_true_iff

theorem countObjectPermissions_pos : 0 < tables.countObjectPermissions target ↔ Granted tables target := by
  simp only [Tables.countObjectPermissions, List.countP_pos_iff, Prod.exists, List.mem_product, decide_eq_true_iff,
    Granted, grants_iff]
  constructor
  · rintro ⟨row, p, ⟨hrow, hp⟩, hid, hon, hcodename⟩
    exact ⟨row, hrow, p, hp, hcodename, hid.symm, hon⟩
  · rintro ⟨row, hrow, p, hp, hcodename, hid, hon⟩
    exact ⟨row, p, ⟨hrow, hp⟩, hid.symm, hon, hcodename⟩

theorem hasPermForObject_ok (tables : Tables) (target : Target) : ∃ b, tables.hasPermForObject target = .ok b := by
  rw [Tables.hasPermForObject, hasPermForObject, Program.run_bind, run_hasPerm]
  by_cases h : 0 < tables.countUserPermissions target.userId target.codename ∨
    0 < tables.countGroupPermissions target.userId target.codename
  · simp only [h, decide_true, Program.run_done]
    exact ⟨true, rfl⟩
  · simp only [h, decide_false, run_query, GuardianCall.exec, Program.run_done]
    exact ⟨_, rfl⟩

/-- The check accepts what the model level or a row for the object accepts. -/
theorem hasPermForObject_eq_true : tables.hasPermForObject target = .ok true ↔
    tables.hasPerm target.userId target.codename = .ok true ∨ Granted tables target := by
  rw [hasPerm_eq_true, Tables.hasPermForObject, hasPermForObject, Program.run_bind, run_hasPerm]
  by_cases h : 0 < tables.countUserPermissions target.userId target.codename ∨
    0 < tables.countGroupPermissions target.userId target.codename
  · simp only [h, decide_true, Program.run_done, true_or]
  · simp only [h, decide_false, run_query, GuardianCall.exec, Program.run_done, false_or, Except.ok.injEq]
    exact decide_eq_true_iff.trans countObjectPermissions_pos

/-- The answer depends on the model level and on the rows of the target. -/
theorem hasPermForObject_congr {tables' : Tables}
    (hperm : tables'.hasPerm target.userId target.codename = tables.hasPerm target.userId target.codename)
    (hgranted : Granted tables' target ↔ Granted tables target) :
    tables'.hasPermForObject target = tables.hasPermForObject target := by
  obtain ⟨b, hb⟩ := hasPermForObject_ok tables target
  obtain ⟨b', hb'⟩ := hasPermForObject_ok tables' target
  have hiff : tables'.hasPermForObject target = .ok true ↔ tables.hasPermForObject target = .ok true := by
    rw [hasPermForObject_eq_true, hasPermForObject_eq_true, hperm, hgranted]
  rw [hb, hb', Except.ok.injEq, Except.ok.injEq] at hiff
  rw [hb, hb', Bool.eq_iff_iff.mpr hiff]

end Check

/-! ### Statements -/

section Statements
variable {tables : Tables} {target other : Target} {p q : Permission}

/-- A statement writes no table but the one of the object permissions. -/
theorem exec_frame (call : GuardianCall) (tables : Tables) :
    (call.exec tables).1 = { tables with objectPermissions := (call.exec tables).1.objectPermissions } := by
  cases call <;> rfl

theorem hasPerm_exec (call : GuardianCall) (tables : Tables) (userId : Int) (codename : String) :
    (call.exec tables).1.hasPerm userId codename = tables.hasPerm userId codename := by
  have hrun : ∀ objectPermissions, ({ tables with objectPermissions } : Tables).hasPerm userId codename =
      tables.hasPerm userId codename := fun objectPermissions => by
    rw [Tables.hasPerm, run_hasPerm, Tables.hasPerm, run_hasPerm]
    rfl
  rw [exec_frame call tables]
  exact hrun _

/-- A statement, whether it fails or not, leaves the permissions and the answers of the model level. -/
theorem step_frame (call : GuardianCall) (failure : Option OrmError) (tables : Tables) :
    (call.step failure tables).1.permissions = tables.permissions ∧
      ∀ userId codename, (call.step failure tables).1.hasPerm userId codename = tables.hasPerm userId codename := by
  cases failure with
  | none =>
    have hpermissions := congrArg Tables.permissions (exec_frame call tables)
    exact ⟨hpermissions, hasPerm_exec call tables⟩
  | some e => exact ⟨rfl, fun _ _ => rfl⟩

theorem permission_unique (hp : p ∈ tables.permissions.rows) (hq : q ∈ tables.permissions.rows)
    (hcodename : p.codename = q.codename) : p = q :=
  List.inj_on_of_nodup_map tables.permissions.unique hp hq hcodename

/-- The rows of a target are those with the permission that its codename names. -/
theorem granted_iff (hp : p ∈ tables.permissions.rows) (hcodename : p.codename = target.codename) :
    Granted tables target ↔ ∃ row ∈ tables.objectPermissions.rows, row.grants p.id target = true := by
  constructor
  · rintro ⟨row, hrow, q, hq, hq', hgrants⟩
    cases permission_unique hp hq (hcodename.trans hq'.symm)
    exact ⟨row, hrow, hgrants⟩
  · rintro ⟨row, hrow, hgrants⟩
    exact ⟨row, hrow, p, hp, hcodename, hgrants⟩

theorem objectPermission_grants (target : Target) (id permission : Int) :
    (target.objectPermission id permission).grants permission target = true :=
  decide_eq_true ⟨rfl, decide_eq_true ⟨rfl, rfl, rfl, rfl⟩⟩

/-- A row is of one target. -/
theorem target_unique {row : ObjectPermission} (hp : p ∈ tables.permissions.rows) (hcodename : p.codename = target.codename)
    (hgrants : row.grants p.id target = true) (hq : q ∈ tables.permissions.rows) (hother : q.codename = other.codename)
    (hgrants' : row.grants q.id other = true) : other = target := by
  obtain ⟨hid, hon⟩ := grants_iff.mp hgrants
  obtain ⟨hid', hon'⟩ := grants_iff.mp hgrants'
  cases Keyed.eq_of_key hp hq (hid.symm.trans hid')
  obtain ⟨huser, happ, hmodel, hobject⟩ := decide_eq_true_iff.mp hon
  obtain ⟨huser', happ', hmodel', hobject'⟩ := decide_eq_true_iff.mp hon'
  cases other
  cases target
  simp_all only

/-- What a call leaves of the targets when it takes effect. -/
def Effect (r : Request) (tables tables' : Tables) : Prop :=
  ∀ other, Granted tables' other ↔ if other = r.target then r.isGrant = true else Granted tables other

/-- An `INSERT` grants its target, and leaves the others. -/
theorem effect_save (hp : p ∈ tables.permissions.rows) (hcodename : p.codename = target.codename) :
    Effect (.grant target) tables ((GuardianCall.save (target.objectPermission 0 p.id)).exec tables).1 := by
  intro other
  have hgrants := objectPermission_grants target tables.objectPermissions.nextId p.id
  split
  · rename_i heq
    cases heq
    refine iff_of_true ⟨_, Keyed.mem_insert.mpr (.inr rfl), p, hp, hcodename, hgrants⟩ rfl
  · rename_i hne
    constructor
    · rintro ⟨row, hrow, q, hq, hother, hgrants'⟩
      rcases Keyed.mem_insert.mp hrow with hrow | rfl
      · exact ⟨row, hrow, q, hq, hother, hgrants'⟩
      · exact absurd (target_unique hp hcodename hgrants hq hother hgrants') hne
    · rintro ⟨row, hrow, hrest⟩
      exact ⟨row, Keyed.mem_insert.mpr (.inl hrow), hrest⟩

/-- A `DELETE` leaves no row of its target, and all rows of the others. -/
theorem effect_delete (hp : p ∈ tables.permissions.rows) (hcodename : p.codename = target.codename) :
    Effect (.revoke target) tables ((GuardianCall.deleteObjectPermissions p.id target).exec tables).1 := by
  intro other
  split
  · rename_i heq
    cases heq
    refine iff_of_false (fun hgranted => ?_) Bool.false_ne_true
    have hiff : Granted ((GuardianCall.deleteObjectPermissions p.id target).exec tables).1 target ↔ _ := granted_iff hp hcodename
    obtain ⟨row, hrow, hgrants⟩ := hiff.mp hgranted
    obtain ⟨-, hkept⟩ := Keyed.mem_delete.mp hrow
    rw [hgrants] at hkept
    cases hkept
  · rename_i hne
    constructor
    · rintro ⟨row, hrow, hrest⟩
      exact ⟨row, (Keyed.mem_delete.mp hrow).1, hrest⟩
    · rintro ⟨row, hrow, q, hq, hother, hgrants'⟩
      refine ⟨row, Keyed.mem_delete.mpr ⟨hrow, Bool.eq_false_iff.mpr fun hgrants => hne ?_⟩, q, hq, hother, hgrants'⟩
      exact target_unique hp hcodename hgrants hq hother hgrants'

end Statements

/-! ### Calls -/

/-- How far a call has come. -/
inductive Stage (permissions : UniqueTable Permission.id Permission.codename) : Request → GuardianAction Outcome → Prop
  | called {r : Request} : Stage permissions r r.action
  | granting {target : Target} {p : Permission} (hp : p ∈ permissions.rows) (hcodename : p.codename = target.codename) :
      Stage permissions (.grant target)
        ((grantPermission target (some p.id)).bind fun answer => .done (answer.map .granted))
  | saving {target : Target} {p : Permission} (hp : p ∈ permissions.rows) (hcodename : p.codename = target.codename) :
      Stage permissions (.grant target)
        ((saveUnless p.id target none).bind fun answer => .done (answer.map .granted))
  | revoking {target : Target} {p : Permission} (hp : p ∈ permissions.rows) (hcodename : p.codename = target.codename) :
      Stage permissions (.revoke target)
        ((revokePermission target (some p.id)).bind fun answer => .done (answer.map .revoked))
  | ended {r : Request} (answer : Except AuthError Outcome) : Stage permissions r (.done answer)

def Returned (p : GuardianAction Outcome) : Prop := ∃ outcome, p = .done (.ok outcome)

theorem not_returned_error (e : AuthError) : ¬Returned (.done (.error e)) := by
  rintro ⟨outcome, heq⟩
  cases heq

theorem not_returned_action (r : Request) : ¬Returned r.action := by
  rintro ⟨outcome, heq⟩
  cases r <;> cases heq

/-- A call that finds its target as it wants it takes effect without a change. -/
theorem effect_of_granted {r : Request} {tables : Tables} (h : Granted tables r.target ↔ r.isGrant = true) :
    Effect r tables tables := by
  intro other
  split
  · rename_i heq
    rw [heq, h]
  · rfl

theorem not_granted {tables : Tables} {target : Target} (hrow : tables.permissions.row? target.codename = none) :
    Granted tables target ↔ (Request.revoke target).isGrant = true := by
  refine iff_of_false ?_ Bool.false_ne_true
  rintro ⟨row, -, p, hp, hcodename, -⟩
  exact UniqueTable.row?_eq_none.mp hrow p hp hcodename

/-- A statement of a call leaves the tables and does not end the call with `Ok`, or it is the last one and the call
    takes effect. -/
theorem exec_stage {r : Request} {call : GuardianCall} {rest : call.Answer → GuardianAction Outcome} {tables : Tables}
    (h : Stage tables.permissions r (.call call rest)) :
    Stage tables.permissions r (rest (.ok (call.exec tables).2)) ∧
      ((call.exec tables).1 = tables ∧ ¬Returned (rest (.ok (call.exec tables).2)) ∨
        Returned (rest (.ok (call.exec tables).2)) ∧ Effect r tables (call.exec tables).1) := by
  generalize hp : (Program.call call rest : GuardianAction Outcome) = p at h
  cases h with
  | called =>
    cases r with
    | grant target =>
      cases hp
      cases hrow : tables.permissions.row? target.codename with
      | none =>
        simp only [GuardianCall.exec, hrow, Option.map_none]
        exact ⟨.ended _, .inl ⟨trivial, not_returned_error _⟩⟩
      | some p =>
        obtain ⟨hmem, hcodename⟩ := UniqueTable.row?_eq_some.mp hrow
        simp only [GuardianCall.exec, hrow, Option.map_some]
        exact ⟨.granting hmem hcodename, .inl ⟨trivial, nofun⟩⟩
    | revoke target =>
      cases hp
      cases hrow : tables.permissions.row? target.codename with
      | none =>
        simp only [GuardianCall.exec, hrow, Option.map_none]
        exact ⟨.ended _, .inr ⟨⟨_, rfl⟩, effect_of_granted (not_granted hrow)⟩⟩
      | some p =>
        obtain ⟨hmem, hcodename⟩ := UniqueTable.row?_eq_some.mp hrow
        simp only [GuardianCall.exec, hrow, Option.map_some]
        exact ⟨.revoking hmem hcodename, .inl ⟨trivial, nofun⟩⟩
  | @granting target p hmem hcodename =>
    cases hp
    cases hrow : tables.objectPermissions.rows.find? (·.grants p.id target) with
    | none =>
      simp only [GuardianCall.exec, hrow, Option.map_none]
      exact ⟨.saving hmem hcodename, .inl ⟨trivial, nofun⟩⟩
    | some row =>
      simp only [GuardianCall.exec, hrow, Option.map_some]
      have hgrants : row.grants p.id target = true := by
        have hfound := List.find?_some hrow
        exact hfound
      have hgranted := (granted_iff hmem hcodename).mpr ⟨row, List.mem_of_find?_eq_some hrow, hgrants⟩
      exact ⟨.ended _, .inr ⟨⟨_, rfl⟩, effect_of_granted (iff_of_true hgranted rfl)⟩⟩
  | saving hmem hcodename =>
    cases hp
    exact ⟨.ended _, .inr ⟨⟨_, rfl⟩, effect_save hmem hcodename⟩⟩
  | revoking hmem hcodename =>
    cases hp
    exact ⟨.ended _, .inr ⟨⟨_, rfl⟩, effect_delete hmem hcodename⟩⟩
  | ended answer => cases hp

namespace Calls
variable {ι : Type} [DecidableEq ι] {request : ι → Request} {tables : Tables} {s s' : Calls ι}

/-- What every state satisfies that calls reach from some tables. -/
structure Sound (request : ι → Request) (tables : Tables) (s : Calls ι) : Prop where
  granted : ∀ target, Granted s.tables target ↔
    match s.latest request target with
    | some r => r.isGrant = true
    | none => Granted tables target
  stage : ∀ i p, s.threads i = some p → Stage s.tables.permissions (request i) p
  effects : ∀ i, i ∈ s.effects ↔ ∃ outcome, s.threads i = some (.done (.ok outcome))

omit [DecidableEq ι] in
theorem effected_returned {effects : List ι} {i : ι} {p : GuardianAction Outcome} (h : Returned p) :
    effected effects i p = effects ++ [i] := by
  obtain ⟨outcome, rfl⟩ := h
  rfl

omit [DecidableEq ι] in
theorem effected_other {effects : List ι} {i : ι} {p : GuardianAction Outcome} (h : ¬Returned p) :
    effected effects i p = effects := by
  unfold effected
  split
  · exact absurd ⟨_, rfl⟩ h
  · rfl

omit [DecidableEq ι] in
/-- The last call on a target, once one more call has taken effect. -/
theorem latest_append (threads : ι → Option (GuardianAction Outcome)) (i : ι) (target : Target) :
    latest request ⟨tables, threads, s.effects ++ [i]⟩ target =
      if target = (request i).target then some (request i) else s.latest request target := by
  simp only [latest, List.map_append, List.map_cons, List.map_nil, List.reverse_append, List.reverse_cons, List.reverse_nil,
    List.nil_append, List.cons_append, List.find?_cons]
  by_cases h : target = (request i).target
  · simp only [← h, decide_true, if_true]
  · simp only [h, Ne.symm h, decide_false, if_false]

/-- A failure of a statement is the answer of the call. -/
theorem error_stage {permissions : UniqueTable Permission.id Permission.codename} {r : Request} {call : GuardianCall}
    {rest : call.Answer → GuardianAction Outcome} (h : Stage permissions r (.call call rest)) (e : OrmError) :
    rest (.error e) = .done (.error (.database e)) := by
  generalize hp : (Program.call call rest : GuardianAction Outcome) = p at h
  cases h with
  | called => cases r <;> cases hp <;> rfl
  | granting | saving | revoking => cases hp; rfl
  | ended => cases hp

/-- A call that goes on with `p` keeps the state sound, if it either takes effect or leaves the tables. -/
theorem next_sound {i : ι} {p : GuardianAction Outcome} {tables' : Tables} (h : Sound request tables s)
    (hopen : ¬∃ outcome, s.threads i = some (.done (.ok outcome)))
    (hpermissions : tables'.permissions = s.tables.permissions) (hstage : Stage s.tables.permissions (request i) p)
    (hstep : tables' = s.tables ∧ ¬Returned p ∨ Returned p ∧ Effect (request i) s.tables tables') :
    Sound request tables ⟨tables', Function.update s.threads i (some p), effected s.effects i p⟩ := by
  refine ⟨fun target => ?_, fun j q (hq : Function.update s.threads i (some p) j = some q) => ?_, fun j => ?_⟩
  · rcases hstep with ⟨rfl, hnot⟩ | ⟨hreturned, heffect⟩
    · rw [effected_other hnot]
      exact h.granted target
    · rw [effected_returned hreturned, latest_append, heffect target]
      by_cases htarget : target = (request i).target
      · simp only [htarget, if_true]
      · simp only [htarget, if_false]
        exact h.granted target
  · rw [hpermissions]
    by_cases hj : j = i
    · cases hj
      rw [Function.update_self] at hq
      exact Option.some.inj hq ▸ hstage
    · rw [Function.update_of_ne hj] at hq
      exact h.stage j q hq
  · change j ∈ effected s.effects i p ↔ ∃ outcome, Function.update s.threads i (some p) j = some (.done (.ok outcome))
    by_cases hj : j = i
    · cases hj
      rw [Function.update_self]
      rcases hstep with ⟨-, hnot⟩ | ⟨hreturned, -⟩
      · rw [effected_other hnot]
        refine iff_of_false (fun hmem => hopen ((h.effects i).mp hmem)) ?_
        rintro ⟨outcome, heq⟩
        exact hnot ⟨outcome, Option.some.inj heq⟩
      · rw [effected_returned hreturned]
        obtain ⟨outcome, rfl⟩ := hreturned
        exact iff_of_true (List.mem_append_right _ (List.mem_singleton.mpr rfl)) ⟨outcome, rfl⟩
    · rw [Function.update_of_ne hj, ← h.effects]
      by_cases hreturned : Returned p
      · rw [effected_returned hreturned, List.mem_append, List.mem_singleton, or_iff_left hj]
      · rw [effected_other hreturned]

omit [DecidableEq ι] in
/-- A statement of a call fails or runs. -/
theorem step_stage {r : Request} {call : GuardianCall} {rest : call.Answer → GuardianAction Outcome}
    (h : Stage s.tables.permissions r (.call call rest)) (failure : Option OrmError) :
    Stage s.tables.permissions r (rest (call.step failure s.tables).2) ∧
      ((call.step failure s.tables).1 = s.tables ∧ ¬Returned (rest (call.step failure s.tables).2) ∨
        Returned (rest (call.step failure s.tables).2) ∧ Effect r s.tables (call.step failure s.tables).1) := by
  cases failure with
  | none => exact exec_stage h
  | some e =>
    simp only [GuardianCall.step, error_stage h e]
    exact ⟨.ended _, .inl ⟨trivial, not_returned_error _⟩⟩

theorem advance_sound {e : Event ι} (h : Sound request tables s) (moved : s.advance request e = some s') :
    Sound request tables s' := by
  cases e with
  | start i =>
    rw [advance] at moved
    split at moved
    · rename_i hthread
      cases moved
      have hnot := not_returned_action (request i)
      have hsound : Sound request tables
          ⟨s.tables, Function.update s.threads i (some (request i).action), effected s.effects i (request i).action⟩ := by
        refine next_sound h ?_ rfl .called (.inl ⟨rfl, hnot⟩)
        rw [hthread]
        rintro ⟨outcome, heq⟩
        cases heq
      rw [effected_other hnot] at hsound
      exact hsound
    · cases moved
  | step i failure =>
    rw [advance] at moved
    split at moved
    · rename_i call rest hthread
      cases moved
      obtain ⟨hstage, hstep⟩ := step_stage (h.stage i _ hthread) failure
      refine next_sound h ?_ ?_ hstage hstep
      · rw [hthread]
        rintro ⟨outcome, heq⟩
        cases heq
      · exact (step_frame call failure s.tables).1
    · cases moved

theorem reaches_sound {s₀ : Calls ι} (h : Sound request tables s₀) (run : Reaches request s₀ s) : Sound request tables s := by
  induction run with
  | refl => exact h
  | event _ moved ih => exact advance_sound ih moved

/-- A step of a call leaves the answers for other targets. -/
theorem step_other {i : ι} {failure : Option OrmError} {target : Target} (h : Sound request tables s)
    (hne : target ≠ (request i).target) (moved : s.advance request (.step i failure) = some s') :
    s'.tables.hasPermForObject target = s.tables.hasPermForObject target := by
  rw [advance] at moved
  split at moved
  · rename_i call rest hthread
    cases moved
    obtain ⟨-, hperm⟩ := step_frame call failure s.tables
    refine hasPermForObject_congr (hperm _ _) (?_ : Granted (call.step failure s.tables).1 target ↔ _)
    rcases (step_stage (h.stage i _ hthread) failure).2 with ⟨hsame, -⟩ | ⟨-, heffect⟩
    · rw [hsame]
    · exact (heffect target).trans (by rw [if_neg hne])
  · cases moved

end Calls

open Calls

/-- The calls that have taken effect are those that have returned `Ok`, the last one on a target decides whether it is
    granted, and no call changes the answer for a target of others. -/
theorem permissions_follow {ι : Type} [DecidableEq ι] (request : ι → Request) (tables : Tables) (s : Calls ι)
    (run : Reaches request (.start tables) s) :
    (∀ i, i ∈ s.effects ↔ ∃ outcome, s.threads i = some (.done (.ok outcome))) ∧
    (∀ target, s.tables.hasPermForObject target = .ok true ↔
      s.tables.hasPerm target.userId target.codename = .ok true ∨ s.latest request target = some (.grant target)) ∧
    ∀ i failure s' target, target ≠ (request i).target → s.advance request (.step i failure) = some s' →
      s'.tables.hasPermForObject target = s.tables.hasPermForObject target := by
  have hstart : Sound request ({ tables with objectPermissions := .empty } : Tables) (.start tables) := by
    refine ⟨fun _ => Iff.rfl, fun i p hthread => ?_, fun i => iff_of_false List.not_mem_nil ?_⟩
    · cases hthread
    · rintro ⟨outcome, heq⟩
      cases heq
  have hsound := reaches_sound hstart run
  refine ⟨hsound.effects, fun target => ?_, fun i failure s' target => step_other hsound⟩
  rw [hasPermForObject_eq_true, hsound.granted]
  refine or_congr_right ?_
  cases hlatest : s.latest request target with
  | none =>
    refine iff_of_false ?_ nofun
    rintro ⟨row, hrow, -⟩
    cases hrow
  | some r =>
    have htarget : r.target = target := by
      have hfound := List.find?_some hlatest
      exact decide_eq_true_iff.mp hfound
    cases r with
    | grant => exact iff_of_true rfl (htarget ▸ rfl)
    | revoke => exact iff_of_false Bool.false_ne_true nofun

/-! ### A grant against a revoke -/

def draft : Target := ⟨7, "docs.change_document", "docs", "Document", 1⟩

def documents : Tables where
  permissions := ⟨⟨[⟨3, "docs.change_document"⟩], 4, by decide, by decide⟩, by decide⟩
  userPermissions := []
  userGroups := []
  groupPermissions := []
  objectPermissions := .empty

/-- A revoke that runs between the check and the `INSERT` of a grant comes before the grant. -/
theorem draft_granted :
    ∃ s : Calls Bool, s.latest (fun b => if b then .grant draft else .revoke draft) draft = some (.grant draft) ∧
      s.tables.hasPermForObject draft = .ok true := by
  have run : Reaches (fun b : Bool => if b then .grant draft else .revoke draft) (.start documents) _ :=
    .event (e := .step true none) (.event (e := .step false none) (.event (e := .step true none)
      (.event (e := .step false none) (.event (e := .step true none) (.event (e := .start false)
        (.event (e := .start true) .refl rfl) rfl) rfl) rfl) rfl) rfl) rfl
  exact ⟨_, rfl, ((permissions_follow _ documents _ run).2.1 draft).mpr (.inr rfl)⟩

end Djangors.Guardian
