import Djangors.Theorems.Assignments
import Djangors.Theorems.Projections
import Djangors.Views.UpdateView

/-! # Edits with forms

The update view stores every column but the key: those of its form as the form has them, the others as the view has
loaded them. A column outside the form keeps what another statement has stored, unless that happens after the view has
loaded the row. -/

namespace Djangors.Orm
open Db Forms Sql

/-! ### Members and columns -/

section Columns
variable {M : DerivedModel} {member : Member}

theorem mem_members (hmember : member ∈ M.modelFields) : member ∈ M.members := List.mem_of_mem_filter hmember

theorem eq_of_ident {member' : Member} (hmember : member ∈ M.members) (hmember' : member' ∈ M.members)
    (h : member.ident = member'.ident) : member = member' := List.inj_on_of_nodup_map M.idents_nodup hmember hmember' h

theorem relation?_member {r : RelationMeta} (hmember : .relation r ∈ M.members) : M.info.relation? r.fieldName = some r := by
  have hident {member : Member} (h : member.relation? = some r) : member = .relation r := by
    cases member with
    | field f => cases h
    | relation r' => exact congrArg Member.relation (Option.some.inj h)
  have hnodup : (M.info.relations.map (·.fieldName)).Nodup := by
    rw [DerivedModel.info, List.Nodup, List.pairwise_map]
    refine (List.pairwise_map.mp M.idents_nodup).filterMap _ fun a b hab r hr r' hr' => ?_
    cases a with
    | field f => cases hr
    | relation a =>
      cases b with
      | field f => cases hr'
      | relation b =>
        rw [← Option.some.inj hr, ← Option.some.inj hr']
        exact hab
  exact (List.find?_key_eq_some hnodup).mpr ⟨List.mem_filterMap.mpr ⟨_, hmember, rfl⟩, rfl⟩

theorem fieldToCol_member (hmember : member ∈ M.members) : fieldToCol M.info member.ident = .column member.columnName := by
  rw [fieldToCol, field?_member hmember]
  cases member with
  | field f => rfl
  | relation r =>
    have hrelation : M.info.relation? (Member.relation r).ident = some r := relation?_member hmember
    rw [Member.field?, Option.map_none, hrelation]
    rfl

/-- The member that is the primary key. -/
theorem pk_member {pkField : FieldMeta} (hpk : M.info.primaryKey? = some pkField) :
    ∃ f : DerivedField, .field f ∈ M.modelFields ∧ f.ident = pkField.name ∧ f.columnName = pkField.columnName := by
  have hmem : pkField ∈ M.info.fields := List.mem_of_find?_eq_some hpk
  obtain ⟨f, hf, rfl⟩ := List.mem_map.mp hmem
  obtain ⟨member, hmember, hfield⟩ := List.mem_filterMap.mp hf
  cases member with
  | field g =>
    obtain rfl := Option.some.inj hfield
    exact ⟨g, List.mem_filter.mpr ⟨hmember, rfl⟩, rfl, rfl⟩
  | relation r => cases hfield

end Columns

/-! ### Forms -/

section Object
variable {ρ : Type} {object object' : Object ρ} {M : DerivedModel} {member : Member}

theorem Object.lookup_set (object : Object ρ) {ident name : String} (held : Held ρ) (h : name ≠ ident) :
    (object.set ident held).lookup name = object.lookup name := by
  induction object with
  | nil => rfl
  | cons entry object ih =>
    obtain ⟨key, old⟩ := entry
    rw [Object.set, List.map_cons, List.lookup_cons, List.lookup_cons]
    split
    · rename_i heq
      have hkey : key ≠ ident := fun hkey => h ((beq_iff_eq.mp heq).trans hkey)
      rw [if_neg hkey]
    · exact ih

/-- A member without a form field is left as it is. -/
theorem applyCleanedForm_keeps {cleaned : FormCleaned} (h : M.applyCleanedForm cleaned object = .ok object')
    (hmember : member ∈ M.members) (hform : member.formField? = none) :
    object'.lookup member.ident = object.lookup member.ident := by
  refine Except.foldlM_induct (P := fun o => o.lookup member.ident = object.lookup member.ident) h rfl ?_
  intro other hother t t' ht hset
  obtain ⟨hin, hsome⟩ := List.mem_filter.mp hother
  have hne : member.ident ≠ other.ident := fun heq => by
    rw [← eq_of_ident hmember hin heq, hform] at hsome
    cases hsome
  split at hset
  · rename_i value hvalue
    cases hassign : (other.assign value : Except Stop (Held ρ)) with
    | error e =>
      rw [hassign] at hset
      cases hset
    | ok held =>
      rw [hassign] at hset
      obtain rfl := Except.ok.inj hset
      exact (Object.lookup_set t held hne).trans ht
  · cases hset

end Object

/-! ### What the view stores -/

section Stored
variable {ρ : Type} {T : TextTypes ρ} {M : DerivedModel} {pkField : FieldMeta} {object : Object ρ} {member : Member}

/-- The values that the update view stores: those of all fields but the primary key. -/
def storedValues (T : TextTypes ρ) (M : DerivedModel) (pkField : FieldMeta) (object : Object ρ) : List (String × Value) :=
  (M.fieldValues T object).filter fun (name, _) => name ≠ pkField.name

theorem storedCells_eq : storedCells M.info (storedValues T M pkField object) =
    (M.modelFields.filter fun member => member.ident ≠ pkField.name).map fun member =>
      (member.columnName, storedCell M.info member.ident (((object.lookup member.ident).getD .absent).value T member.type)) := by
  rw [storedCells, storedValues, DerivedModel.fieldValues, List.filter_map, List.map_map]
  refine List.map_congr_left fun member hmember => ?_
  have hcol := fieldToCol_member (mem_members (List.mem_of_mem_filter hmember))
  exact Prod.ext (congrArg ColRef.name hcol) rfl

theorem storedCells_nodup : ((storedCells M.info (storedValues T M pkField object)).map (·.1)).Nodup := by
  rw [storedCells_eq, List.map_map]
  exact M.columns_nodup.sublist (((List.filter_sublist).trans List.filter_sublist).map _)

theorem pk_not_stored (hpk : M.info.primaryKey? = some pkField) :
    pkField.columnName ∉ (storedCells M.info (storedValues T M pkField object)).map (·.1) := by
  rw [storedCells_eq, List.map_map]
  intro hmem
  obtain ⟨f, hf, hname, hcol⟩ := pk_member hpk
  obtain ⟨member, hmember, heq⟩ := List.mem_map.mp hmem
  obtain ⟨hmember, hne⟩ := List.mem_filter.mp hmember
  have hsame : member = .field f :=
    List.inj_on_of_nodup_map M.columns_nodup (mem_members hmember) (mem_members hf) (heq.trans hcol.symm)
  rw [hsame] at hne
  exact of_decide_eq_true hne hname

theorem lookup_storedCells (hmember : member ∈ M.modelFields) (hne : member.ident ≠ pkField.name) {held : Held ρ}
    (h : object.lookup member.ident = some held) :
    (storedCells M.info (storedValues T M pkField object)).lookup member.columnName =
      some (storedCell M.info member.ident (held.value T member.type)) := by
  refine List.lookup_of_mem storedCells_nodup ?_
  rw [storedCells_eq]
  refine List.mem_map.mpr ⟨member, List.mem_filter.mpr ⟨hmember, decide_eq_true hne⟩, ?_⟩
  rw [h]
  rfl

end Stored

/-- The row that `get` decodes. -/
theorem get_decodes [Fmt] {m : ModelMeta} {ι : Type} {S : Server} {db : Tables Cell} {inTransaction : Bool}
    {fromRow : Row Cell → Except OrmError ι} {qs : QuerySet m} {item : ι} (h : qs.get S db inTransaction fromRow = .ok item) :
    ∃ read, qs.get S db inTransaction .ok = .ok read ∧ fromRow read = .ok item := by
  obtain ⟨items, hall, hone⟩ := Except.bind_eq_ok.mp h
  obtain ⟨_, hcheck, hrows⟩ := Except.bind_eq_ok.mp hall
  obtain ⟨rows, hfetch, hdecode⟩ := Except.bind_eq_ok.mp hrows
  have hitems : items = [item] := by
    split at hone
    · cases hone
    · exact congrArg (fun x => [x]) (Except.ok.inj hone)
    · cases hone
  rw [hitems, Except.mapM_eq_ok] at hdecode
  obtain ⟨read, _, hread, hrest, rfl⟩ := List.forall₂_cons_right_iff.mp hdecode
  obtain rfl := List.forall₂_nil_right_iff.mp hrest
  refine ⟨read, Except.bind_eq_ok.mpr ⟨[read], ?_, rfl⟩, hread⟩
  exact Except.bind_eq_ok.mpr ⟨(), hcheck, Except.bind_eq_ok.mpr ⟨[read], hfetch, rfl⟩⟩

end Djangors.Orm

namespace Djangors.Views
open Db Forms Http Orm Sql

variable {ρ : Type} {G : TryGet} {T : TextTypes ρ} {M : DerivedModel} {pkField : FieldMeta}

/-! ### The statements of a request -/

/-- What is left of a request that has loaded a row: nothing, or the `UPDATE` with what it has loaded and its form. -/
inductive Loaded (G : TryGet) (T : TextTypes ρ) (M : DerivedModel) (pkField : FieldMeta) (read : Row Cell) :
    Handler ρ (Reply ρ) → Prop
  | ended (result : Except Failure (Reply ρ)) : Loaded G T M pkField read (.done result)
  | storing {object edited : Object ρ} (cleaned : FormCleaned) (pk : Int) (rest : Except OrmError Nat → Handler ρ (Reply ρ))
      (decoded : M.fromRow G T read = .ok object) (applied : M.applyCleanedForm cleaned object = .ok edited)
      (ends : ∀ answer, ∃ result, rest answer = .done result) :
      Loaded G T M pkField read (.call (.update pkField pk (storedValues T M pkField edited)) rest)

/-- How far a request is, and the row that it has loaded. -/
inductive Stage (G : TryGet) (T : TextTypes ρ) (M : DerivedModel) (pkField : FieldMeta) :
    Option (Row Cell) → Option (Handler ρ (Reply ρ)) → Prop
  | waiting (seen : Option (Row Cell)) : Stage G T M pkField seen none
  | ended (seen : Option (Row Cell)) (result : Except Failure (Reply ρ)) : Stage G T M pkField seen (some (.done result))
  | loading (seen : Option (Row Cell)) (field : FieldMeta) (pk : Int)
      (rest : Except OrmError (Object ρ) → Handler ρ (Reply ρ))
      (failed : ∀ e, ∃ result, rest (.error e) = .done result)
      (found : ∀ read object, M.fromRow G T read = .ok object → Loaded G T M pkField read (rest (.ok object))) :
      Stage G T M pkField seen (some (.call (.get field pk) rest))
  | loaded (read : Row Cell) (p : Handler ρ (Reply ρ)) (h : Loaded G T M pkField read p) :
      Stage G T M pkField (some read) (some p)

theorem store_loaded (hpk : M.info.primaryKey? = some pkField) {read : Row Cell} {object : Object ρ}
    (decoded : M.fromRow G T read = .ok object) (cleaned : FormCleaned) :
    Loaded G T M pkField read (store T M object cleaned) := by
  rw [store]
  cases happly : M.applyCleanedForm cleaned object with
  | error e => cases e <;> exact .ended _
  | ok edited =>
    show Loaded G T M pkField read (orFail (pkValue T M edited) >>= _)
    cases hvalue : pkValue T M edited with
    | error e => exact .ended _
    | ok pk =>
      have hkey : primaryKey M = .ok pkField := Rest.orElse_eq_ok.mpr hpk
      show Loaded G T M pkField read (orFail (primaryKey M) >>= _)
      rw [hkey]
      refine .storing cleaned pk _ decoded happly fun answer => ?_
      cases answer <;> exact ⟨_, rfl⟩

theorem orFail_ok {α β : Type} (a : α) (rest : α → Handler ρ β) : (orFail (.ok a) >>= rest) = rest a := rfl

theorem update_stage (hpk : M.info.primaryKey? = some pkField) (seen : Option (Row Cell)) (req : UpdateRequest) :
    Stage G T M pkField seen (some (update T M req)) := by
  rw [update, find]
  cases hpath : pathPk req.pk with
  | error e => exact .ended _ _
  | ok pk =>
    have hkey : primaryKey M = .ok pkField := Rest.orElse_eq_ok.mpr hpk
    rw [hkey]
    refine .loading seen pkField pk _ (fun e => ?_) fun read object decoded => ?_
    · cases e <;> exact ⟨_, rfl⟩
    · show Loaded G T M pkField read (if req.method = .get then _ else _)
      split
      · exact .ended _
      · cases hform : req.form with
        | error e => exact .ended _
        | ok data =>
          cases hvalid : M.validateForm data with
          | error errors =>
            rw [orFail_ok, hvalid]
            exact .ended _
          | ok cleaned =>
            rw [orFail_ok, hvalid]
            exact store_loaded hpk decoded cleaned

/-! ### Steps -/

namespace Edits
variable {ι : Type} {S : Server} {key : Int} {s s' : Edits ι ρ}

/-- The value that a column of the row should have: what the last of some writes has stored, or what was there first. -/
def holdsLast (column : String) (first : Row Cell) (history : List Write) (r : Row Cell) : Prop :=
  r.lookup column = (first.lookup column).map fun c => (lastSet column history).getD c

theorem holdsLast_write {column : String} {first r : Row Cell} {history : List Write} (h : holdsLast column first history r)
    (write : Write) (hnodup : (write.cells.map (·.1)).Nodup) :
    holdsLast column first (write :: history) (r.setAll write.cells) := by
  have hlast : lastSet column (write :: history) = (write.cells.lookup column).or (lastSet column history) := by
    rw [lastSet, List.findSome?_cons]
    cases write.cells.lookup column <;> rfl
  rw [holdsLast] at h ⊢
  rw [Row.lookup_setAll hnodup, h, Option.map_map, hlast]
  congr 1
  funext c
  cases write.cells.lookup column <;> rfl

theorem hasKey_setAll {cells : List (String × Cell)} (hnodup : (cells.map (·.1)).Nodup)
    (hpk : pkField.columnName ∉ cells.map (·.1)) (r : Row Cell) :
    hasKey S pkField key (r.setAll cells) = hasKey S pkField key r := by
  have hnone : cells.lookup pkField.columnName = none :=
    List.lookup_eq_none_iff.mpr fun p hp => bne_iff_ne.mpr fun heq => hpk (List.mem_map.mpr ⟨p, hp, heq.symm⟩)
  have hcell : (r.setAll cells).lookup pkField.columnName = r.lookup pkField.columnName := by
    rw [Row.lookup_setAll hnodup, hnone]
    exact Option.map_id'
  rw [hasKey, hasKey, hcell]

/-- The row with a key, which holds in each column what was last written there, and how far each request is. -/
structure Sound (G : TryGet) (T : TextTypes ρ) (M : DerivedModel) (S : Server) (pkField : FieldMeta) (key : Int)
    (first : Row Cell) (s : Edits ι ρ) : Prop where
  row : ∃ now, (∀ r ∈ s.tables M.tableName, hasKey S pkField key r = true → r = now) ∧
    ∀ column, holdsLast column first s.history now
  stages : ∀ i, Stage G T M pkField (s.loaded i) (s.requests i)

/-- The rows with a key hold in a column what was last written there by others than the view. -/
def Kept (M : DerivedModel) (S : Server) (pkField : FieldMeta) (key : Int) (first : Row Cell) (column : String)
    (s : Edits ι ρ) : Prop :=
  ∀ r ∈ s.tables M.tableName, hasKey S pkField key r = true →
    holdsLast column first (s.history.filter fun write => !write.byView) r

/-- What the `UPDATE` of a request makes of the rows. -/
theorem update_rows [Fmt] {field : FieldMeta} {pk : Int} {values : List (String × Value)} {u : Update} {db tables : Tables Cell}
    {n : Nat} (hu : updateOf S M field pk values = .ok u) (hrun : S.runUpdate db u = .ok (tables, n)) :
    tables = Function.update db M.tableName ((db M.tableName).map fun r =>
      if S.selects db M.tableName u.bound r then r.setAll (storedCells M.info values) else r) := by
  obtain ⟨qs, -, hqs⟩ := Except.bind_eq_ok.mp hu
  obtain ⟨htable, -⟩ := qs.update_bound S.dialect hqs
  obtain ⟨-, f, hkept, hset, rfl⟩ := Server.runUpdate_ok hrun
  have htable : u.table = M.tableName := htable
  rw [htable] at hkept hset ⊢
  refine congrArg _ (List.map_congr_left fun r hr => ?_)
  cases hselects : S.selects db M.tableName u.bound r with
  | false => exact hkept r hr hselects
  | true => exact Option.some.inj ((hset r hr hselects).symm.trans (assignRow_literals hqs S r))

/-- What is left of a request after its row has been read. -/
theorem get_stage [Fmt] {db : Tables Cell} {field : FieldMeta} {pk : Int} {rest : Except OrmError (Object ρ) → Handler ρ (Reply ρ)}
    (failed : ∀ e, ∃ result, rest (.error e) = .done result)
    (found : ∀ read object, M.fromRow G T read = .ok object → Loaded G T M pkField read (rest (.ok object))) :
    Stage G T M pkField (runGet S db M .ok field pk).toOption (some (rest (runGet S db M (M.fromRow G T) field pk))) := by
  cases hget : runGet S db M (M.fromRow G T) field pk with
  | error e =>
    obtain ⟨result, hresult⟩ := failed e
    rw [hresult]
    exact .ended _ result
  | ok object =>
    obtain ⟨qs, hqs, hget⟩ := Except.bind_eq_ok.mp hget
    obtain ⟨read, hread, hdecoded⟩ := get_decodes hget
    have hseen : runGet S db M .ok field pk = .ok read := Except.bind_eq_ok.mpr ⟨qs, hqs, hread⟩
    rw [hseen]
    exact .loaded read _ (found read object hdecoded)

/-- A row with a key after an `UPDATE` of other columns was a row with the key before. -/
theorem row_before {rows : List (Row Cell)} {selected : Row Cell → Bool} {cells : List (String × Cell)}
    (hnodup : (cells.map (·.1)).Nodup) (hpk : pkField.columnName ∉ cells.map (·.1)) {r : Row Cell}
    (hr : r ∈ rows.map fun r => if selected r then r.setAll cells else r) (hkey : hasKey S pkField key r = true) :
    ∃ r₀ ∈ rows, hasKey S pkField key r₀ = true ∧ r = if selected r₀ then r₀.setAll cells else r₀ := by
  obtain ⟨r₀, hr₀, rfl⟩ := List.mem_map.mp hr
  refine ⟨r₀, hr₀, ?_, rfl⟩
  split at hkey
  · rwa [hasKey_setAll hnodup hpk] at hkey
  · exact hkey

section Step
variable [DecidableEq ι] {first : Row Cell} {i : ι} {p : Handler ρ (Reply ρ)}

/-- The other requests are where they were. -/
theorem stages_update {requests : ι → Option (Handler ρ (Reply ρ))} {loaded : ι → Option (Row Cell)}
    (h : ∀ j, Stage G T M pkField (loaded j) (requests j)) (seen : Option (Row Cell)) (hp : Stage G T M pkField seen (some p))
    (j : ι) : Stage G T M pkField (Function.update loaded i seen j) (Function.update requests i (some p) j) := by
  by_cases hj : j = i
  · subst hj
    rw [Function.update_self, Function.update_self]
    exact hp
  · rw [Function.update_of_ne hj, Function.update_of_ne hj]
    exact h j

theorem stages_advance {requests : ι → Option (Handler ρ (Reply ρ))} {loaded : ι → Option (Row Cell)}
    (h : ∀ j, Stage G T M pkField (loaded j) (requests j)) (hp : Stage G T M pkField (loaded i) (some p)) (j : ι) :
    Stage G T M pkField (loaded j) (Function.update requests i (some p) j) := by
  have hstages := stages_update (i := i) h (loaded i) hp j
  rwa [Function.update_eq_self] at hstages

variable [Fmt]

/-- An `UPDATE` of the view that fails changes nothing, and one that succeeds is written down if it has reached the row. -/
theorem store_cases (S : Server) (G : TryGet) (T : TextTypes ρ) (M : DerivedModel) (pkField : FieldMeta) (key : Int)
    (s : Edits ι ρ) (i : ι) (field : FieldMeta) (pk : Int) (values : List (String × Value))
    {rest : Except OrmError Nat → Handler ρ (Reply ρ)} (ends : ∀ answer, ∃ result, rest answer = .done result) :
    ∃ result, s.next S G T M pkField key i (.update field pk values) rest =
        { s with requests := Function.update s.requests i (some (.done result)) } ∨
      ∃ selected : Row Cell → Bool, s.next S G T M pkField key i (.update field pk values) rest =
        { s with
          tables := Function.update s.tables M.tableName ((s.tables M.tableName).map fun r =>
            if selected r then r.setAll (storedCells M.info values) else r)
          requests := Function.update s.requests i (some (.done result))
          history := if (s.tables M.tableName).any (fun r => hasKey S pkField key r && selected r) then
            ⟨true, storedCells M.info values⟩ :: s.history else s.history } := by
  rw [next]
  split
  · rename_i e he
    obtain ⟨result, hresult⟩ := ends (.error e)
    exact ⟨result, .inl (by rw [hresult])⟩
  · rename_i u hu
    split
    · rename_i e he
      obtain ⟨result, hresult⟩ := ends (.error e)
      exact ⟨result, .inl (by rw [hresult])⟩
    · rename_i tables n hrun
      obtain ⟨result, hresult⟩ := ends (.ok n)
      refine ⟨result, .inr ⟨S.selects s.tables M.tableName u.bound, ?_⟩⟩
      rw [hresult, update_rows hu hrun]
      rfl

theorem store_sound (hpk : M.info.primaryKey? = some pkField) (h : Sound G T M S pkField key first s) {field : FieldMeta}
    {pk : Int} {object : Object ρ} {rest : Except OrmError Nat → Handler ρ (Reply ρ)}
    (ends : ∀ answer, ∃ result, rest answer = .done result) :
    Sound G T M S pkField key first (s.next S G T M pkField key i (.update field pk (storedValues T M pkField object)) rest) := by
  obtain ⟨now, hnow, hlast⟩ := h.row
  obtain ⟨result, heq | ⟨selected, heq⟩⟩ := store_cases S G T M pkField key s i field pk (storedValues T M pkField object) ends
  · rw [heq]
    exact ⟨⟨now, hnow, hlast⟩, stages_advance h.stages (.ended _ _)⟩
  · rw [heq]
    refine ⟨?_, stages_advance h.stages (.ended _ _)⟩
    by_cases hwritten : (s.tables M.tableName).any (fun r => hasKey S pkField key r && selected r) = true
    · refine ⟨now.setAll (storedCells M.info (storedValues T M pkField object)), fun r hr hkey => ?_, fun column => ?_⟩
      · simp only [Function.update_self] at hr
        obtain ⟨r₀, hr₀, hkey₀, rfl⟩ := row_before storedCells_nodup (pk_not_stored hpk) hr hkey
        obtain ⟨r₁, hr₁, hsel⟩ := List.any_eq_true.mp hwritten
        obtain ⟨hkey₁, hsel⟩ := Bool.and_eq_true_iff.mp hsel
        rw [hnow r₁ hr₁ hkey₁] at hsel
        rw [hnow r₀ hr₀ hkey₀, if_pos hsel]
      · simp only [if_pos hwritten]
        exact holdsLast_write (hlast column) ⟨true, _⟩ storedCells_nodup
    · refine ⟨now, fun r hr hkey => ?_, fun column => ?_⟩
      · simp only [Function.update_self] at hr
        obtain ⟨r₀, hr₀, hkey₀, rfl⟩ := row_before storedCells_nodup (pk_not_stored hpk) hr hkey
        have hsel : ¬selected r₀ = true := fun hsel =>
          hwritten (List.any_eq_true.mpr ⟨r₀, hr₀, Bool.and_eq_true_iff.mpr ⟨hkey₀, hsel⟩⟩)
        rw [if_neg hsel]
        exact hnow r₀ hr₀ hkey₀
      · simp only [if_neg hwritten]
        exact hlast column

theorem advance_sound (hpk : M.info.primaryKey? = some pkField) {e : Event ι} (h : Sound G T M S pkField key first s)
    (moved : s.advance S G T M pkField key e = some s') : Sound G T M S pkField key first s' := by
  cases e with
  | arrive i req =>
    rw [advance] at moved
    split at moved
    · obtain rfl := Option.some.inj moved
      exact ⟨h.row, stages_advance h.stages (update_stage hpk _ req)⟩
    · cases moved
  | step i =>
    rw [advance] at moved
    split at moved
    · rename_i call rest hrequest
      obtain rfl := Option.some.inj moved
      have hstage := h.stages i
      rw [hrequest] at hstage
      generalize s.loaded i = seen at hstage
      cases hstage with
      | loading _ field pk rest failed found =>
        exact ⟨h.row, stages_update h.stages _ (get_stage failed found)⟩
      | loaded read p hloaded =>
        cases hloaded with
        | storing cleaned pk rest decoded applied ends => exact store_sound hpk h ends
    · cases moved
  | other cells =>
    rw [advance] at moved
    split at moved
    · rename_i hcells
      dsimp only at moved
      split at moved
      · rename_i tables hcommit
        obtain rfl := Option.some.inj moved
        obtain rfl := Server.commit_ok hcommit
        obtain ⟨now, hnow, hlast⟩ := h.row
        refine ⟨⟨now.setAll cells, fun r hr hkey => ?_, fun column => holdsLast_write (hlast column) ⟨false, cells⟩ hcells.1⟩,
          h.stages⟩
        simp only [Function.update_self] at hr
        obtain ⟨r₀, hr₀, hkey₀, rfl⟩ := row_before hcells.1 hcells.2 hr hkey
        rw [if_pos hkey₀, hnow r₀ hr₀ hkey₀]
      · obtain rfl := Option.some.inj moved
        exact h
    · cases moved
  | delete =>
    rw [advance] at moved
    split at moved
    · rename_i tables hcommit
      obtain rfl := Option.some.inj moved
      obtain rfl := Server.commit_ok hcommit
      obtain ⟨now, hnow, hlast⟩ := h.row
      refine ⟨⟨now, fun r hr hkey => ?_, hlast⟩, h.stages⟩
      simp only [Function.update_self] at hr
      exact hnow r (List.mem_of_mem_filter hr) hkey
    · obtain rfl := Option.some.inj moved
      exact h

/-- A column outside the form keeps what others have stored, as long as the view stores there what is there. -/
theorem advance_kept (hpk : M.info.primaryKey? = some pkField) {member : Member} (hmember : member ∈ M.modelFields)
    (hform : member.formField? = none) (hne : member.ident ≠ pkField.name) {e : Event ι}
    (h : Sound G T M S pkField key first s) (kept : Kept M S pkField key first member.columnName s)
    (ok : Undisturbed S G T M pkField key member s e) (moved : s.advance S G T M pkField key e = some s') :
    Kept M S pkField key first member.columnName s' := by
  cases e with
  | arrive i req =>
    rw [advance] at moved
    split at moved
    · obtain rfl := Option.some.inj moved
      exact kept
    · cases moved
  | step i =>
    rw [advance] at moved
    split at moved
    · rename_i call rest hrequest
      obtain rfl := Option.some.inj moved
      have hstage := h.stages i
      rw [hrequest] at hstage
      generalize hseen : s.loaded i = seen at hstage
      cases hstage with
      | loading _ field pk rest failed found => exact kept
      | loaded read p hloaded =>
        cases hloaded with
        | @storing object edited cleaned pk rest decoded applied ends =>
          obtain ⟨result, heq | ⟨selected, heq⟩⟩ :=
            store_cases S G T M pkField key s i pkField pk (storedValues T M pkField edited) ends
          · rw [heq]
            exact kept
          · rw [heq]
            have hhistory (written : Bool) (cells : List (String × Cell)) :
                (if written then (⟨true, cells⟩ : Write) :: s.history else s.history).filter (fun write => !write.byView) =
                  s.history.filter fun write => !write.byView := by
              cases written <;> rfl
            intro r hr hkey
            simp only [Function.update_self] at hr
            simp only [hhistory]
            obtain ⟨r₀, hr₀, hkey₀, rfl⟩ := row_before storedCells_nodup (pk_not_stored hpk) hr hkey
            have hbefore := kept r₀ hr₀ hkey₀
            split
            · obtain ⟨hsame, hback⟩ := ok pkField pk _ rest hrequest r₀ hr₀ hkey₀ read hseen
              obtain ⟨c, held, hc, hheld, hlookup⟩ := fromRow_member decoded hmember
              have hedited := (applyCleanedForm_keeps applied (mem_members hmember) hform).trans hlookup
              have hcell := lookup_storedCells (T := T) hmember hne hedited
              have hstored : storedCell M.info member.ident (held.value T member.type) = c := hback c hc held hheld
              have hkeeps : (r₀.setAll (storedCells M.info (storedValues T M pkField edited))).lookup member.columnName =
                  r₀.lookup member.columnName := by
                rw [Row.lookup_setAll storedCells_nodup, hcell, hsame, hc, hstored]
                rfl
              rw [holdsLast, hkeeps]
              exact hbefore
            · exact hbefore
    · cases moved
  | other cells =>
    rw [advance] at moved
    split at moved
    · rename_i hcells
      dsimp only at moved
      split at moved
      · rename_i tables hcommit
        obtain rfl := Option.some.inj moved
        obtain rfl := Server.commit_ok hcommit
        intro r hr hkey
        simp only [Function.update_self] at hr
        obtain ⟨r₀, hr₀, hkey₀, rfl⟩ := row_before hcells.1 hcells.2 hr hkey
        rw [if_pos hkey₀]
        exact holdsLast_write (kept r₀ hr₀ hkey₀) ⟨false, cells⟩ hcells.1
      · obtain rfl := Option.some.inj moved
        exact kept
    · cases moved
  | delete =>
    rw [advance] at moved
    split at moved
    · rename_i tables hcommit
      obtain rfl := Option.some.inj moved
      obtain rfl := Server.commit_ok hcommit
      intro r hr hkey
      simp only [Function.update_self] at hr
      exact kept r (List.mem_of_mem_filter hr) hkey
    · obtain rfl := Option.some.inj moved
      exact kept

omit [DecidableEq ι] [Fmt] in
theorem start_sound {tables : Tables Cell}
    (hfirst : ∀ r ∈ tables M.tableName, hasKey S pkField key r = true → r = first) :
    Sound G T M S pkField key first (start tables : Edits ι ρ) where
  row := by
    refine ⟨first, hfirst, fun column => ?_⟩
    exact Option.map_id'.symm
  stages _ := .waiting _

theorem reaches_sound (hpk : M.info.primaryKey? = some pkField) {meets : Edits ι ρ → Event ι → Prop} {s₀ : Edits ι ρ}
    (h : Sound G T M S pkField key first s₀) (reaches : Reaches S G T M pkField key meets s₀ s) :
    Sound G T M S pkField key first s := by
  induction reaches with
  | refl => exact h
  | event earlier ok moved ih => exact advance_sound hpk ih moved

theorem reaches_run (S : Server) (G : TryGet) (T : TextTypes ρ) (M : DerivedModel) (pkField : FieldMeta) (key : Int)
    (events : List (Event ι)) {s₀ s₁ : Edits ι ρ} (reaches : Reaches S G T M pkField key (fun _ _ => True) s₀ s₁)
    (h : s₁.run S G T M pkField key events = some s) :
    Reaches S G T M pkField key (fun _ _ => True) s₀ s := by
  induction events generalizing s₁ with
  | nil =>
    cases h
    exact reaches
  | cons e events ih =>
    obtain ⟨s₂, hmoved, h⟩ := Option.bind_eq_some_iff.mp h
    exact ih (reaches.event trivial hmoved) h

end Step
end Edits

def noteMembers : List Member :=
  [.field { ident := "id", columnName := "id", type := .i64, primaryKey := true, auto := true },
    .field { ident := "title", columnName := "title", type := .string, maxLength := some 80 },
    .field { ident := "seen_at", columnName := "seen_at", type := .dateTime }]

theorem noteMembers_idents : (noteMembers.map Member.ident).Nodup := by decide

theorem noteMembers_columns : (noteMembers.map Member.columnName).Nodup := by decide

/-- A note with a title and the time at which it was last seen. -/
def noteModel : DerivedModel where
  structName := "Note"
  appLabel := "desk"
  tableName := "desk_note"
  members := noteMembers
  idents_nodup := noteMembers_idents
  columns_nodup := noteMembers_columns
  one_pk := ⟨_, rfl⟩

def noteKey : FieldMeta where
  name := "id"
  columnName := "id"
  kind := .bigInt
  primaryKey := true
  auto := true
  unique := true
  dbIndex := true

def note (title : String) (seenAt : Int) : Row Cell := [("id", .i64 1), ("title", .text title), ("seen_at", .dateTime ⟨seenAt⟩)]

def notes : Tables Cell := fun t => if t = "desk_note" then [note "draft" 5] else []

/-- A form with another title. -/
def retitled : UpdateRequest where
  method := .post
  pk := some ['1']
  form := .ok fun name => if name = "title" then some "final" else none

theorem notes_first (r : Row Cell) (hr : r ∈ notes noteModel.tableName) (_ : Edits.hasKey plainServer noteKey 1 r = true) :
    r = note "draft" 5 := List.mem_singleton.mp hr

theorem seenAt_writesBack : @Edits.WritesBack String plainGet keptTexts noteModel
    (.field { ident := "seen_at", columnName := "seen_at", type := .dateTime }) (.dateTime ⟨5⟩) := by
  intro held hheld
  cases hheld
  rfl

end Djangors.Views
