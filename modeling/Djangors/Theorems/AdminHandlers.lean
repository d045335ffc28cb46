import Djangors.Theorems.AdminStatements

/-! # Handlers

How a handler goes on after a call, and which handlers only read. -/

namespace Djangors.Admin
open Db Http Orm Sql
open Migrations (CaseMap)

/-! ### Steps -/

section Steps
variable {σ α β : Type} {exec : (call : AdminCall) → σ → σ × call.Answer} {R : AdminCall → σ → Prop} {s s' : σ}

theorem orFail_bind (result : Except DjangorsError α) (f : α → Handler β) :
    (orFail result >>= f) = match result with
      | .ok a => f a
      | .error e => Fallible.lift (.error (.error e)) := by
  cases result <;> rfl

theorem always_orFail {result : Except DjangorsError α} {f : α → Handler β} :
    (orFail result >>= f).Always exec R s ↔ ∀ a, result = .ok a → (f a).Always exec R s := by
  rw [orFail_bind]
  cases result with
  | error e => simp
  | ok a => simp

theorem eval_orFail_eq_ok {result : Except DjangorsError α} {f : α → Handler β} {b : β} :
    (orFail result >>= f).eval exec s = (s', .ok b) ↔ ∃ a, result = .ok a ∧ (f a).eval exec s = (s', .ok b) := by
  rw [orFail_bind]
  cases result with
  | error e => simp
  | ok a => simp

theorem always_orPanic {result : Option α} {f : α → Handler β} :
    (orPanic result >>= f).Always exec R s ↔ ∀ a, result = some a → (f a).Always exec R s := by
  cases result with
  | none => exact ⟨fun _ _ h => (by cases h), fun _ => trivial⟩
  | some a => exact ⟨fun h _ heq => Option.some.inj heq ▸ h, fun h => h a rfl⟩

theorem eval_orPanic_eq_ok {result : Option α} {f : α → Handler β} {b : β} :
    (orPanic result >>= f).eval exec s = (s', .ok b) ↔ ∃ a, result = some a ∧ (f a).eval exec s = (s', .ok b) := by
  cases result with
  | none =>
    constructor
    · intro h
      cases h
    · rintro ⟨_, h, -⟩
      cases h
  | some a => exact ⟨fun h => ⟨a, rfl, h⟩, fun ⟨_, heq, h⟩ => Option.some.inj heq ▸ h⟩

theorem always_ask {call : AdminCall} {f : call.Result → Handler β} :
    (ask call >>= f).Always exec R s ↔
      R call s ∧ ∀ a, (exec call s).2 = .ok a → (f a).Always exec R (exec call s).1 := by
  rw [Fallible.always_bind]
  constructor
  · rintro ⟨⟨hcall, -⟩, hnext⟩
    exact ⟨hcall, fun a ha => hnext a (congrArg (·.mapError Fault.ofStop) ha)⟩
  · rintro ⟨hcall, hnext⟩
    refine ⟨⟨hcall, trivial⟩, fun a ha => hnext a ?_⟩
    have ha : (exec call s).2.mapError Fault.ofStop = .ok a := ha
    cases hanswer : (exec call s).2 with
    | error e => rw [hanswer] at ha; cases ha
    | ok b =>
      rw [hanswer] at ha
      obtain rfl := Except.ok.inj ha
      rfl

theorem eval_ask_eq_ok {call : AdminCall} {f : call.Result → Handler β} {b : β} :
    (ask call >>= f).eval exec s = (s', .ok b) ↔
      ∃ a, (exec call s).2 = .ok a ∧ (f a).eval exec (exec call s).1 = (s', .ok b) := by
  have heval : (ask call).eval exec s = ((exec call s).1, (exec call s).2.mapError .ofStop) := rfl
  rw [Fallible.eval_bind, heval]
  cases (exec call s).2 with
  | error e =>
    constructor
    · intro h
      cases h
    · rintro ⟨_, h, -⟩
      cases h
  | ok a => exact ⟨fun h => ⟨a, rfl, h⟩, fun ⟨_, heq, h⟩ => Except.ok.inj heq ▸ h⟩

theorem always_attempt {call : AdminCall} {f : Except OrmError call.Result → Handler β} :
    (attempt call >>= f).Always exec R s ↔
      R call s ∧ (∀ a, (exec call s).2 = .ok a → (f (.ok a)).Always exec R (exec call s).1) ∧
        ∀ e, (exec call s).2 = .error (.err e) → (f (.error e)).Always exec R (exec call s).1 := by
  refine and_congr_right fun _ => ?_
  show Program.Always exec R (Program.bind _ _) _ ↔ _
  cases (exec call s).2 with
  | ok a => exact ⟨fun h => ⟨fun _ heq => Except.ok.inj heq ▸ h, fun _ heq => (by cases heq)⟩, fun h => h.1 a rfl⟩
  | error stop =>
    cases stop with
    | err e => exact ⟨fun h => ⟨fun _ heq => (by cases heq), fun _ heq => (by cases heq; exact h)⟩, fun h => h.2 e rfl⟩
    | panic => exact ⟨fun _ => ⟨fun _ heq => (by cases heq), fun _ heq => (by cases heq)⟩, fun _ => trivial⟩

end Steps

/-! ### What only reads -/

/-- A call that changes nothing. -/
def AdminCall.reads : AdminCall → Bool
  | .count _ _ | .all _ _ | .countWhere _ _ _ | .dateParts _ _ _ _ | .children _ _ _ _ => true
  | _ => false

/-- A call that leaves the tables. -/
def AdminCall.quiet : AdminCall → Bool
  | .saveLog _ => true
  | call => call.reads

theorem AdminCall.quiet_of_reads {call : AdminCall} (h : call.reads = true) : call.quiet = true := by
  cases call <;> first | rfl | cases h

abbrev Reads {α : Type} (p : Handler α) : Prop := p.Only fun call => call.reads = true

abbrev Quiet {α : Type} (p : Handler α) : Prop := p.Only fun call => call.quiet = true

section Only
variable {α β : Type} {P : AdminCall → Prop}

theorem only_orFail (result : Except DjangorsError α) : (orFail result).Only P := trivial

theorem only_ask {call : AdminCall} (h : P call) : (ask call).Only P := ⟨h, fun _ => trivial⟩

theorem only_attempt {call : AdminCall} (h : P call) : (attempt call).Only P := by
  refine ⟨h, fun answer => ?_⟩
  rcases answer with (_ | _) | _ <;> trivial

theorem Reads.quiet {p : Handler α} (h : Reads p) : Quiet p := by
  induction p with
  | done a => trivial
  | call op next ih => exact ⟨AdminCall.quiet_of_reads h.1, fun answer => ih answer (h.2 answer)⟩

end Only

section Reads
variable (admin : ModelAdmin) (pk : Int) (tenant : TenantFilter)

theorem reads_all (qs : QuerySet admin.info) {β : Type} {f : List (List (String × Value)) → Handler β}
    (hf : ∀ values, Reads (f values)) : Reads (do
      let rows : List (Row Cell) ← ask (.all _ qs)
      f (← admin.decode rows)) :=
  Fallible.only_bind (only_ask rfl) fun _ => Fallible.only_bind (only_orFail _) hf

theorem reads_getByPk : Reads (admin.getByPk pk tenant) := by
  refine Fallible.only_bind (only_orFail _) fun qs => reads_all admin _ fun values => ?_
  rcases values with _ | ⟨_, _ | _⟩ <;> trivial

theorem reads_first (qs : QuerySet admin.info) : Reads (admin.first qs) := reads_all admin _ fun _ => trivial

variable [Fmt] in
theorem reads_confirmItems (access : Access) (pks : List Int) : Reads (confirmItems access pks) := by
  induction pks with
  | nil => trivial
  | cons pk pks ih =>
    exact Fallible.only_bind (reads_getByPk _ _ _) fun _ => Fallible.only_bind ih fun _ => trivial

theorem reads_buildInlineTables (site : Site) (inlines : List InlineConfig) : Reads (buildInlineTables site pk inlines) := by
  induction inlines with
  | nil => trivial
  | cons inline inlines ih =>
    exact Fallible.only_bind (only_orFail _) fun _ => Fallible.only_bind (only_ask rfl) fun _ =>
      Fallible.only_bind ih fun _ => trivial

theorem reads_collectNested {nested : Option Collect} (hnested : ∀ collect ∈ nested, ∀ m visited, Reads (collect m visited))
    (m : ModelMeta) (visited : List String) : Reads (collectNested nested m visited) := by
  cases nested with
  | none => trivial
  | some collect =>
    rw [collectNested]
    split
    · trivial
    · exact hnested collect rfl _ _

theorem reads_collectLoop {nested : Option Collect} (hnested : ∀ collect ∈ nested, ∀ m visited, Reads (collect m visited))
    (relations : List (ModelMeta × RelationMeta)) (visited : List String) : Reads (collectLoop nested pk relations visited) := by
  induction relations generalizing visited with
  | nil => trivial
  | cons relation relations ih =>
    refine Fallible.only_bind (only_attempt rfl) fun answer => ?_
    rcases answer with e | count
    · simp only
      split
      · exact ih visited
      · exact only_orFail _
    · simp only
      split
      · exact ih visited
      · exact Fallible.only_bind (reads_collectNested hnested _ _) fun _ => Fallible.only_bind (ih _) fun _ => trivial

theorem reads_collectRelated (site : Site) (depth : Nat) (target : ModelMeta) (visited : List String) :
    Reads (collectRelated site pk depth target visited) := by
  induction depth generalizing target visited with
  | zero => exact reads_collectLoop pk (by simp) _ _
  | succ depth ih =>
    refine reads_collectLoop pk (fun collect h m visited => ?_) _ _
    cases h
    exact ih m visited

theorem reads_collectRelatedObjects (site : Site) (target : ModelMeta) : Reads (collectRelatedObjects site target pk) :=
  Fallible.only_bind (reads_collectRelated _ _ _ _ _) fun _ => trivial

theorem quiet_logAction (user : User) (m : ModelMeta) (flag : Int) (message : String)
    (diff : Option (List FieldDiffItem)) : Quiet (logAction user m pk flag message diff) := by
  refine Fallible.only_bind (only_attempt rfl) fun answer => ?_
  rcases answer with e | _
  · simp only
    split <;> trivial
  · trivial

theorem quiet_logAll (access : Access) (message : String) (pks : List Int) : Quiet (logAll access message pks) := by
  induction pks with
  | nil => trivial
  | cons pk pks ih => exact Fallible.only_bind (quiet_logAction _ _ _ _ _ _) fun _ => ih

end Reads

/-! ### Routes that only read -/

section Pages
variable [Fmt] {site : Site} {req : AdminRequest} (admin : ModelAdmin)

theorem reads_changelist {order search : Option String} {filters : List (String × Bool)} {page perPage : Int}
    {dateRange : Option (DateTime × DateTime)} {tenant : TenantFilter} :
    Reads (admin.changelist order page perPage search filters dateRange tenant) :=
  Fallible.only_bind (only_orFail _) fun _ => Fallible.only_bind (only_ask rfl) fun _ => reads_all admin _ fun _ => trivial

theorem reads_exportCsvRows {order search : Option String} {filters : List (String × Bool)}
    {dateRange : Option (DateTime × DateTime)} {tenant : TenantFilter} :
    Reads (admin.exportCsvRows order search filters dateRange tenant) :=
  Fallible.only_bind (only_orFail _) fun _ => reads_all admin _ fun _ => trivial

theorem reads_dateValues (state : ChangelistQueryState) : Reads (dateValues admin state) := by
  rw [dateValues]
  split
  · trivial
  · refine Fallible.only_bind ?_ fun _ => trivial
    exact Fallible.only_bind (only_ask rfl) fun _ => trivial

/-- A route that shows a page. -/
def Route.isPage : Route → Bool
  | .changelist | .exportCsv | .addGet | .changeGet | .deleteGet => true
  | _ => false

variable [Rest.Parse] [CaseMap] [Calendar]

theorem reads_serve {route : Route} (h : route.isPage = true) : Reads (serve site route req) := by
  cases route with
  | changelist =>
    refine Fallible.only_bind (only_orFail _) fun access => Fallible.only_bind (only_orFail _) fun _ => ?_
    refine Fallible.only_bind (only_orFail _) fun _ => Fallible.only_bind (only_orFail _) fun _ => ?_
    refine Fallible.only_bind (Fallible.only_lift _) fun _ => Fallible.only_bind (only_orFail _) fun _ => ?_
    exact Fallible.only_bind (reads_changelist _) fun _ => Fallible.only_bind (reads_dateValues _ _) fun _ => trivial
  | exportCsv =>
    refine Fallible.only_bind (only_orFail _) fun access => Fallible.only_bind (Fallible.only_lift _) fun _ => ?_
    exact Fallible.only_bind (reads_exportCsvRows _) fun _ => trivial
  | addGet => exact Fallible.only_bind (only_orFail _) fun _ => trivial
  | changeGet =>
    refine Fallible.only_bind (only_orFail _) fun _ => Fallible.only_bind (only_orFail _) fun _ => ?_
    refine Fallible.only_bind (reads_getByPk _ _ _) fun values => ?_
    cases values with
    | none => exact only_orFail _
    | some values => exact Fallible.only_bind (reads_buildInlineTables _ _ _) fun _ => trivial
  | deleteGet =>
    refine Fallible.only_bind (only_orFail _) fun _ => Fallible.only_bind (reads_getByPk _ _ _) fun values => ?_
    cases values with
    | none => exact only_orFail _
    | some values => exact Fallible.only_bind (reads_collectRelatedObjects _ _ _) fun _ => trivial
  | addPost | changePost | deletePost | bulkDelete | saveChangelist | bulkAction => cases h

end Pages

/-! ### What reading leaves -/

section Exec
variable [Fmt] [UnquotedNames] {S : AdminServer} {w : World} {call : AdminCall} {α β : Type} {p : Handler α}

theorem exec_reads (h : call.reads = true) : (call.exec S w).1 = w := by
  cases call <;> first | rfl | cases h

theorem exec_quiet (h : call.quiet = true) :
    (call.exec S w).1.tables = w.tables ∧ (call.exec S w).1.history = w.history := by
  cases call with
  | saveLog entry =>
    rw [AdminCall.exec]
    split <;> exact ⟨rfl, rfl⟩
  | count | all | countWhere | dateParts | children => exact ⟨rfl, rfl⟩
  | update | delete | insertRaw | deleteByPk => cases h

theorem eval_reads (h : Reads p) : (p.eval (AdminCall.exec S) w).1 = w :=
  (h.always (R := fun call _ => call.reads = true) fun _ _ hcall => hcall).invariant (I := (· = w)) rfl
    fun _ _ hcall hw => (exec_reads hcall).trans hw

theorem eval_quiet (h : Quiet p) :
    (p.eval (AdminCall.exec S) w).1.tables = w.tables ∧ (p.eval (AdminCall.exec S) w).1.history = w.history :=
  (h.always (R := fun call _ => call.quiet = true) fun _ _ hcall => hcall).invariant
    (I := fun w' : World => w'.tables = w.tables ∧ w'.history = w.history) ⟨rfl, rfl⟩
    fun _ _ hcall hw => ⟨(exec_quiet hcall).1.trans hw.1, (exec_quiet hcall).2.trans hw.2⟩

variable {R : AdminCall → World → Prop} {f : α → Handler β}

/-- What follows a program that only reads starts where it started. -/
theorem always_reads_bind (hR : ∀ call w, call.reads = true → R call w) (hp : Reads p)
    (hf : ∀ a, (p.eval (AdminCall.exec S) w).2 = .ok a → (f a).Always (AdminCall.exec S) R w) :
    (p >>= f).Always (AdminCall.exec S) R w := by
  refine Fallible.always_bind.mpr ⟨hp.always hR, fun a ha => ?_⟩
  rw [eval_reads hp]
  exact hf a ha

/-- What follows a program that leaves the tables starts with the same ones. -/
theorem always_quiet_bind (hR : ∀ call w, call.quiet = true → R call w) (hp : Quiet p)
    (hf : ∀ a w', w'.tables = w.tables → (f a).Always (AdminCall.exec S) R w') :
    (p >>= f).Always (AdminCall.exec S) R w :=
  Fallible.always_bind.mpr ⟨hp.always hR, fun a _ => hf a _ (eval_quiet hp).1⟩

end Exec

/-! ### Deleting by key -/

section DeleteByPk
variable [Fmt] [UnquotedNames] {S : AdminServer} {w : World} {admin : ModelAdmin} {pk : Int} {tenant : TenantFilter}

omit [Fmt] [UnquotedNames] in
theorem reads_isInTenant : Reads (admin.isInTenant pk tenant) := by
  rw [ModelAdmin.isInTenant]
  split
  · exact Fallible.only_bind (only_orFail _) fun _ => Fallible.only_bind (reads_first _ _) fun _ => trivial
  · trivial

omit [Fmt] [UnquotedNames] in
theorem mapM_eq_nil {ε α β : Type} {f : α → Except ε β} {xs : List α} (h : xs.mapM f = .ok []) : xs = [] :=
  (List.forall₂_nil_right_iff.mp (Except.mapM_eq_ok.mp h))

/-- A row is in the scope of a key and a tenant. -/
def InScope (S : AdminServer) (db : Tables Cell) (admin : ModelAdmin) (pk : Int) (tenant : TenantFilter) (r : Row Cell) : Prop :=
  ∃ qs, admin.scopedPkQueryset pk tenant = .ok qs ∧ qs.keeps S.toServer db r = true

/-- A key that is in the tenant belongs to a row of it. -/
theorem isInTenant_eq_true {w' : World} (hsome : tenant.isSome)
    (h : (admin.isInTenant pk tenant).eval (AdminCall.exec S) w = (w', .ok true)) :
    ∃ r ∈ w.tables admin.info.tableName, InScope S w.tables admin pk tenant r := by
  rw [ModelAdmin.isInTenant, if_pos hsome] at h
  obtain ⟨qs, hqs, h⟩ := eval_orFail_eq_ok.mp h
  obtain ⟨_, first, hfirst, h⟩ := Fallible.eval_bind_eq_ok.mp h
  obtain ⟨rows, hrows, hfirst⟩ := eval_ask_eq_ok.mp hfirst
  obtain ⟨items, hitems, hfirst⟩ := eval_orFail_eq_ok.mp hfirst
  cases hfirst
  have hsome : items.head?.isSome = true := Except.ok.inj (congrArg Prod.snd h)
  have hfetch : S.fetch w.tables ((qs.withLimit 1).select S.dialect) = .ok rows := stopErr_eq_ok.mp hrows
  cases hitem : rows with
  | nil =>
    rw [hitem] at hitems
    cases hitems
    cases hsome
  | cons r rest =>
    obtain ⟨hmem, hselects⟩ := fetch_mem hfetch (hitem ▸ List.mem_cons_self ..)
    have hkeeps : (qs.withLimit 1).keeps S.toServer w.tables r = true := keeps_of_selects hselects
    exact ⟨r, hmem, qs, hqs, hkeeps⟩

theorem eval_isInTenant : ((admin.isInTenant pk tenant).eval (AdminCall.exec S) w).1 = w := eval_reads reads_isInTenant

/-- A deletion by key is one `DELETE`, behind a row of the tenant. -/
theorem always_deleteByPk {R : AdminCall → World → Prop} (hreads : ∀ call w, call.reads = true → R call w)
    (hdelete : (tenant.isSome → ∃ r ∈ w.tables admin.info.tableName, InScope S w.tables admin pk tenant r) →
      R (.deleteByPk admin.info pk) w) :
    (admin.deleteByPk pk tenant).Always (AdminCall.exec S) R w := by
  refine Fallible.always_bind.mpr ⟨reads_isInTenant.always hreads, fun b hb => ?_⟩
  rw [eval_isInTenant]
  cases b with
  | false => trivial
  | true =>
    refine always_ask.mpr ⟨hdelete fun hsome => ?_, fun _ _ => trivial⟩
    exact isInTenant_eq_true hsome (Prod.ext rfl hb)

theorem exec_deleteByPk_eq {after : Tables Cell} {effects : List Effect} {n : Nat}
    (h : (QuerySet.deleteByPk admin.info pk).bind (AdminCall.runDelete S w.tables admin.info) = .ok (after, effects, n)) :
    (AdminCall.deleteByPk admin.info pk).exec S w = (⟨after, w.log, w.history ++ effects⟩, .ok n) := by
  rw [AdminCall.exec, h]
  rfl

theorem eval_deleteByPk : ((admin.deleteByPk pk tenant).eval (AdminCall.exec S) w).1 = w ∨
    ((admin.deleteByPk pk tenant).eval (AdminCall.exec S) w).1 = ((AdminCall.deleteByPk admin.info pk).exec S w).1 := by
  rw [ModelAdmin.deleteByPk, Fallible.eval_bind, eval_isInTenant]
  rcases ((admin.isInTenant pk tenant).eval (AdminCall.exec S) w).2 with e | _ | _
  · exact .inl rfl
  · exact .inl rfl
  · refine .inr ?_
    show (Fallible.eval _ (ask _ >>= _) w).1 = _
    rw [Fallible.eval_bind]
    have heval : (ask (.deleteByPk admin.info pk)).eval (AdminCall.exec S) w =
        (((AdminCall.deleteByPk admin.info pk).exec S w).1,
          ((AdminCall.deleteByPk admin.info pk).exec S w).2.mapError .ofStop) := rfl
    rw [heval]
    cases ((AdminCall.deleteByPk admin.info pk).exec S w).2 <;> rfl

/-- What is left after a deletion has distinct keys. -/
theorem KeysDistinct.deleteByPk (h : KeysDistinct S admin w.tables) :
    KeysDistinct S admin ((admin.deleteByPk pk tenant).eval (AdminCall.exec S) w).1.tables := by
  have hdelete : ((admin.deleteByPk pk tenant).eval (AdminCall.exec S) w).1 = w ∨ _ := eval_deleteByPk
  rcases hdelete with heq | heq
  · rw [heq]
    exact h
  · rw [heq, AdminCall.exec]
    cases hrun : (QuerySet.deleteByPk admin.info pk).bind (AdminCall.runDelete S w.tables admin.info) with
    | error e => exact h
    | ok result =>
      obtain ⟨after, effects, n⟩ := result
      obtain ⟨rfl, -, -⟩ := runDeleteByPk_eq_ok hrun
      simp only [KeysDistinct, World.write, Function.update_self]
      exact List.Pairwise.filter _ h

end DeleteByPk

/-! ### The log -/

/-- The entry that `log_action` stores. -/
def logEntry (user : User) (m : ModelMeta) (pk flag : Int) (message : String) (fieldDiff : Option (List FieldDiffItem)) :
    LogEntry where
  userId := user.id
  appLabel := m.appLabel
  modelName := m.structName
  objectId := pk
  objectRepr := m.structName ++ " object (" ++ toString pk ++ ")"
  actionFlag := flag
  changeMessage := message
  fieldDiff := fieldDiff

section Log
variable [Fmt] [UnquotedNames] {S : AdminServer} {w : World} {user : User} {m : ModelMeta} {pk flag : Int}
  {message : String} {diff : Option (List FieldDiffItem)}

theorem eval_logAction (h : S.refusesLog (logEntry user m pk flag message diff) = none) :
    (logAction user m pk flag message diff).eval (AdminCall.exec S) w =
      ({ w with log := w.log ++ [logEntry user m pk flag message diff] }, .ok ()) := by
  have hexec : (AdminCall.saveLog (logEntry user m pk flag message diff)).exec S w =
      ({ w with log := w.log ++ [logEntry user m pk flag message diff] }, .ok ()) := by
    rw [AdminCall.exec, h]
  show Fallible.eval _ (attempt (.saveLog (logEntry user m pk flag message diff)) >>= _) w = _
  have hattempt : (attempt (.saveLog (logEntry user m pk flag message diff))).eval (AdminCall.exec S) w =
      ({ w with log := w.log ++ [logEntry user m pk flag message diff] }, .ok (.ok ())) := by
    show Program.eval _ (.call _ _) w = _
    rw [Program.eval_call, hexec]
    rfl
  rw [Fallible.eval_bind_ok hattempt]
  rfl

end Log

/-! ### Actions -/

section Actions
variable {admin : ModelAdmin} {name : String} {action : AdminAction}

/-- An action is a custom one, or the built-in one. -/
theorem find_action_eq_some : admin.actions.find? (·.name = name) = some action ↔
    (admin.config.actions.getD []).find? (·.name = name) = some action ∨
      (admin.config.actions.getD []).find? (·.name = name) = none ∧ name = "delete_selected" ∧
        action = ⟨"delete_selected", "Delete selected", true, admin.deleteSelected⟩ := by
  rw [ModelAdmin.actions, List.find?_append]
  cases (admin.config.actions.getD []).find? (·.name = name) with
  | some a => simp
  | none =>
    rw [Option.none_or, List.find?_singleton]
    by_cases hname : name = "delete_selected"
    · simp [hname, eq_comm]
    · simp [hname, Ne.symm hname]

end Actions

/-! ### Who is let in -/

section Access
variable [CaseMap] {site : Site} {req : AdminRequest} {action : String}

/-- The user may do this to the rows of a model. -/
def MayDo (site : Site) (user : User) (m : ModelMeta) (action : String) : Prop :=
  user.isStaff = true ∧ (user.isSuperuser = true ∨ hasPerm site user m action = .ok true)

theorem requirePerm_eq_ok {m : ModelMeta} {user : User} :
    requirePerm site req m action = .ok user ↔ req.auth = .ok user ∧ MayDo site user m action := by
  rw [requirePerm, requireStaff, Except.bind_eq_ok]
  constructor
  · rintro ⟨u, hstaff, h⟩
    obtain ⟨u', hauth, hstaff⟩ := Except.bind_eq_ok.mp hstaff
    split at hstaff
    · rename_i hisStaff
      cases hstaff
      split at h
      · rename_i hsuper
        cases h
        exact ⟨hauth, hisStaff, .inl hsuper⟩
      · obtain ⟨b, hperm, h⟩ := Except.bind_eq_ok.mp h
        cases b with
        | false => cases h
        | true =>
          cases h
          exact ⟨hauth, hisStaff, .inr hperm⟩
    · cases hstaff
  · rintro ⟨hauth, hstaff, hperm⟩
    refine ⟨user, Except.bind_eq_ok.mpr ⟨user, hauth, if_pos hstaff⟩, ?_⟩
    by_cases hsuper : user.isSuperuser = true
    · rw [if_pos hsuper]
      rfl
    · rw [if_neg hsuper, hperm.resolve_left hsuper]
      rfl

/-- A request is let in by the permission for its model. -/
theorem authorize_eq_ok {access : Access} : authorize site req action = .ok access ↔
    findAdmin site req = .ok access.admin ∧ req.auth = .ok access.user ∧
      MayDo site access.user access.admin.info action ∧ resolveTenant site req access.user = .ok access.tenant := by
  rw [authorize, Except.bind_eq_ok]
  constructor
  · rintro ⟨admin, hadmin, h⟩
    obtain ⟨user, huser, h⟩ := Except.bind_eq_ok.mp h
    obtain ⟨tenant, htenant, h⟩ := Except.bind_eq_ok.mp h
    cases h
    obtain ⟨hauth, hmay⟩ := requirePerm_eq_ok.mp huser
    exact ⟨hadmin, hauth, hmay, htenant⟩
  · rintro ⟨hadmin, hauth, hmay, htenant⟩
    exact ⟨_, hadmin, Except.bind_eq_ok.mpr ⟨_, requirePerm_eq_ok.mpr ⟨hauth, hmay⟩,
      Except.bind_eq_ok.mpr ⟨_, htenant, rfl⟩⟩⟩

theorem authorizeRow_eq_ok {access : Access} {pk : Int} : authorizeRow site req action = .ok (access, pk) ↔
    req.pk = some pk ∧ authorize site req action = .ok access := by
  rw [authorizeRow, Except.bind_eq_ok]
  constructor
  · rintro ⟨pk', hpk, h⟩
    obtain ⟨access', haccess, h⟩ := Except.bind_eq_ok.mp h
    cases h
    cases hreq : req.pk with
    | none => rw [hreq] at hpk; cases hpk
    | some k =>
      rw [hreq] at hpk
      cases hpk
      exact ⟨rfl, haccess⟩
  · rintro ⟨hpk, haccess⟩
    exact ⟨pk, by rw [hpk]; rfl, Except.bind_eq_ok.mpr ⟨access, haccess, rfl⟩⟩

theorem findAdmin_mem {admin : ModelAdmin} (h : findAdmin site req = .ok admin) : admin ∈ site.admins := by
  rw [findAdmin] at h
  cases hfind : site.admins.find? fun a => a.info.appLabel = req.app ∧ CaseMap.toLowercase a.info.structName = req.model with
  | none => rw [hfind] at h; cases h
  | some a =>
    rw [hfind] at h
    cases h
    exact List.mem_of_find?_eq_some hfind

end Access

end Djangors.Admin
