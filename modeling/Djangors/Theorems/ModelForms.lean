import Djangors.Theorems.FormEdits

/-! # What a model form stores

A value that a form field lets through, and what the assignment makes of it. -/

namespace Djangors.Forms

/-! ### Validated forms -/

section Validate
variable {fields : List (String × FormField)} {data : String → Option String} {cleaned : FormCleaned}

/-- A form that validates has a cleaned value for each field. -/
theorem validate_ok (h : validate fields data = .ok cleaned) :
    List.Forall₂ (fun field entry => entry.1 = field.1 ∧ field.2.clean (data field.1) = .ok entry.2) fields cleaned := by
  unfold validate at h
  dsimp only at h
  split at h
  · rename_i hnone
    obtain rfl := Except.ok.inj h
    clear h
    induction fields with
    | nil => exact .nil
    | cons field fields ih =>
      obtain ⟨name, field⟩ := field
      rw [List.map_cons] at hnone ⊢
      cases hclean : field.clean (data name) with
      | error e => simp [hclean] at hnone
      | ok value =>
        simp only [hclean, List.filterMap_cons] at hnone ⊢
        exact .cons ⟨rfl, hclean⟩ (ih hnone)
  · cases h

theorem lookup_validated (distinct : (fields.map (·.1)).Nodup) (h : validate fields data = .ok cleaned) {name : String}
    {field : FormField} (hfield : (name, field) ∈ fields) :
    ∃ value, cleaned.lookup name = some value ∧ field.clean (data name) = .ok value := by
  have related := validate_ok h
  have names : cleaned.map (·.1) = fields.map (·.1) := related.map_eq fun _ _ h => h.1
  rcases related.exists_of_mem_left hfield with ⟨⟨name', value⟩, hmem, rfl, hclean⟩
  exact ⟨value, List.lookup_of_mem (names ▸ distinct) hmem, hclean⟩

end Validate

/-! ### Cleaned values -/

/-- A text that is submitted. An empty one is none. -/
def submitted (raw : Option String) : Option String := raw.filter (· ≠ "")

theorem submitted_eq_some {raw : Option String} {s : String} : submitted raw = some s ↔ raw = some s ∧ s ≠ "" := by
  simp [submitted, Option.filter_eq_some_iff]

theorem submitted_eq_none {raw : Option String} : submitted raw = none ↔ raw = none ∨ raw = some "" := by
  cases raw <;> simp [submitted, Option.filter]

namespace FormField
variable {raw : Option String} {value : Cleaned}

theorem present_ok {required : Bool} {empty : Cleaned} {clean : String → Except FieldError Cleaned} :
    present required empty clean raw = .ok value ↔
      submitted raw = none ∧ required = false ∧ empty = value ∨
        ∃ s, submitted raw = some s ∧ clean s = .ok value := by
  unfold present
  split
  · cases required <;> simp [submitted]
  · cases required <;> simp [submitted]
  · rename_i s hs
    have hne : s ≠ "" := hs
    simp [submitted, Option.filter, hne]

theorem cleanInteger_ok {s : String} (h : cleanInteger none none s = .ok value) :
    ∃ n, Text.parseSigned (2 ^ 63) s.toList = some n ∧ value = .integer (some n) := by
  unfold cleanInteger at h
  cases hparse : Text.parseSigned (2 ^ 63) s.toList with
  | none =>
    rw [hparse] at h
    cases h
  | some n =>
    rw [hparse] at h
    exact ⟨n, rfl, (Except.ok.inj h).symm⟩

theorem clean_char {maxLength : Option Nat} {required : Bool} (h : (char maxLength required).clean raw = .ok value) :
    (submitted raw = none → required = false) ∧ value = .text ((submitted raw).getD "") := by
  rcases present_ok.mp h with ⟨hraw, hrequired, rfl⟩ | ⟨s, hraw, hclean⟩
  · exact ⟨fun _ => hrequired, by rw [hraw]; rfl⟩
  · rw [hraw]
    refine ⟨fun hnone => (by cases hnone), ?_⟩
    split at hclean
    · split at hclean
      · cases hclean
      · exact (Except.ok.inj hclean).symm
    · exact (Except.ok.inj hclean).symm

theorem clean_choice {choices : List String} {required : Bool} (h : (choice choices required).clean raw = .ok value) :
    (submitted raw = none → required = false) ∧ value = .text ((submitted raw).getD "") := by
  rcases present_ok.mp h with ⟨hraw, hrequired, rfl⟩ | ⟨s, hraw, hclean⟩
  · exact ⟨fun _ => hrequired, by rw [hraw]; rfl⟩
  · rw [hraw]
    refine ⟨fun hnone => (by cases hnone), ?_⟩
    split at hclean
    · exact (Except.ok.inj hclean).symm
    · cases hclean

theorem clean_integer {required : Bool} (h : (integer none none required).clean raw = .ok value) :
    submitted raw = none ∧ required = false ∧ value = .integer none ∨
      ∃ s n, submitted raw = some s ∧ Text.parseSigned (2 ^ 63) s.toList = some n ∧ value = .integer (some n) := by
  rcases present_ok.mp h with ⟨hraw, hrequired, rfl⟩ | ⟨s, hraw, hclean⟩
  · exact .inl ⟨hraw, hrequired, rfl⟩
  · rcases cleanInteger_ok hclean with ⟨n, hparse, rfl⟩
    exact .inr ⟨s, n, hraw, hparse, rfl⟩

theorem clean_boolean (h : (boolean false).clean raw = .ok value) :
    value = .bool (decide (raw = some "on" ∨ raw = some "true" ∨ raw = some "1")) := by
  simpa [clean, eq_comm] using h

end FormField
end Djangors.Forms

namespace Djangors.Orm
open Db Forms

/-! ### What a submitted text stands for -/

namespace Member
variable {ρ : Type}

/-- The value stands for the submitted text. -/
def Represents : Member → Option String → Held ρ → Prop
  | relation _, none, _ => False
  | relation _, some s, held => ∃ n, Text.parseSigned (2 ^ 63) s.toList = some n ∧ held = .int n
  | field f, none, held => if f.nullable then held = .absent else f.type = .bool ∧ held = .bool false
  | field f, some s, held =>
    match f.type with
    | .i32 | .i64 => ∃ n, Text.parseSigned (2 ^ 63) s.toList = some n ∧ held = .int n
    | .bool => held = .bool (decide (s ∈ ["on", "true", "1"]))
    | _ => held = .text s

/-- The member can hold the submitted text: an integer is in the range of an `i32`, and none is submitted only where a
    member that can be `None` is neither a text nor a boolean. -/
def Holds : Member → Option String → Prop
  | relation _, _ => True
  | field f, none => f.nullable = true → f.type ≠ .string ∧ f.type ≠ .bool
  | field f, some s =>
    f.type = .i32 → ∀ n, Text.parseSigned (2 ^ 63) s.toList = some n → -2147483648 ≤ n ∧ n ≤ 2147483647

section Fields
variable {f : DerivedField} {t : Option String}

theorem assign_string (htype : f.type = .string) (hnone : t = none → f.nullable = true) :
    ∃ held : Held ρ, (field f).assign (.text (t.getD "")) = .ok held ∧ ((field f).Represents t held ↔ (field f).Holds t) := by
  refine ⟨.text (t.getD ""), by simp [assign, htype], ?_⟩
  cases t with
  | none => simp [Represents, Holds, htype, hnone]
  | some s => simp [Represents, Holds, htype]

theorem assign_bool (htype : f.type = .bool) {b : Bool} (hb : b = true ↔ ∃ s ∈ t, s ∈ ["on", "true", "1"]) :
    ∃ held : Held ρ, (field f).assign (.bool b) = .ok held ∧ ((field f).Represents t held ↔ (field f).Holds t) := by
  refine ⟨.bool b, by simp [assign, htype], ?_⟩
  cases t with
  | none =>
    obtain rfl : b = false := by simpa using hb
    cases hnull : f.nullable <;> simp [Represents, Holds, htype, hnull]
  | some s =>
    have hdecide : b = decide (s ∈ ["on", "true", "1"]) := by
      rw [Bool.eq_iff_iff, hb, decide_eq_true_iff]
      simp
    simp [Represents, Holds, htype, hdecide]

/-- An integer is assigned as it is, or narrowed to an `i32`. -/
theorem assign_integer (htype : f.type = .i32 ∨ f.type = .i64) {s : String} {n : Int}
    (hparse : Text.parseSigned (2 ^ 63) s.toList = some n) :
    ∃ held : Held ρ, (field f).assign (.integer (some n)) = .ok held ∧
      ((field f).Represents (some s) held ↔ (field f).Holds (some s)) := by
  rcases htype with htype | htype
  · refine ⟨.int (asI32 n), by cases hnull : f.nullable <;> simp [assign, htype, hnull, unwrap], ?_⟩
    simp only [Represents, Holds, htype, hparse, Option.some_inj, exists_eq_left', forall_const, forall_eq', Held.int.injEq]
    exact asI32_eq_self_iff
  · refine ⟨.int n, by cases hnull : f.nullable <;> simp [assign, htype, hnull, unwrap], ?_⟩
    simpa [Represents, Holds, htype] using hparse

theorem assign_none (htype : f.type = .i32 ∨ f.type = .i64) (hnull : f.nullable = true) :
    ∃ held : Held ρ, (field f).assign (.integer none) = .ok held ∧
      ((field f).Represents none held ↔ (field f).Holds none) := by
  refine ⟨.absent, by rcases htype with htype | htype <;> simp [assign, htype, hnull], ?_⟩
  rcases htype with htype | htype <;> simp [Represents, Holds, htype, hnull]

end Fields

/-- What is assigned for a value that a form field lets through stands for the submitted text when the member can hold
    it. -/
theorem assign_ok {member : Member} {formField : FormField} (hfield : member.formField? = some formField)
    {raw : Option String} {value : Cleaned} (hclean : formField.clean raw = .ok value) :
    ∃ held : Held ρ, member.assign value = .ok held ∧
      (member.Represents (submitted raw) held ↔ member.Holds (submitted raw)) := by
  cases member with
  | relation r =>
    rw [formField?] at hfield
    split at hfield
    · cases hfield
    · obtain rfl := Option.some_inj.mp hfield
      rcases FormField.clean_integer hclean with ⟨_, hrequired, _⟩ | ⟨s, n, hraw, hparse, rfl⟩
      · cases hrequired
      · rw [hraw]
        exact ⟨.int n, rfl, iff_of_true ⟨n, hparse, rfl⟩ trivial⟩
  | field f =>
    rw [formField?] at hfield
    split at hfield
    · cases hfield
    have integers (htype : f.type = .i32 ∨ f.type = .i64)
        (hfield : some (FormField.integer none none (!f.nullable)) = some formField) :
        ∃ held : Held ρ, (field f).assign value = .ok held ∧
          ((field f).Represents (submitted raw) held ↔ (field f).Holds (submitted raw)) := by
      obtain rfl := Option.some_inj.mp hfield
      rcases FormField.clean_integer hclean with ⟨hraw, hrequired, rfl⟩ | ⟨s, n, hraw, hparse, rfl⟩
      · rw [hraw]
        exact assign_none htype (by simpa using hrequired)
      · rw [hraw]
        exact assign_integer htype hparse
    split at hfield
    · rename_i htype
      have htext : (submitted raw = none → (!f.nullable) = false) ∧ value = .text ((submitted raw).getD "") := by
        split at hfield
        · obtain rfl := Option.some_inj.mp hfield
          exact FormField.clean_choice hclean
        · obtain rfl := Option.some_inj.mp hfield
          exact FormField.clean_char hclean
      rw [htext.2]
      exact assign_string htype fun hnone => by simpa using htext.1 hnone
    · rename_i htype
      exact integers (.inl htype) hfield
    · rename_i htype
      exact integers (.inr htype) hfield
    · rename_i htype
      obtain rfl := Option.some_inj.mp hfield
      rw [FormField.clean_boolean hclean]
      refine assign_bool htype ?_
      simp only [decide_eq_true_eq, Option.mem_def, submitted_eq_some, List.mem_cons, List.not_mem_nil, or_false]
      constructor
      · rintro (rfl | rfl | rfl) <;> exact ⟨_, ⟨rfl, by decide⟩, by simp⟩
      · rintro ⟨s, ⟨rfl, _⟩, rfl | rfl | rfl⟩ <;> simp
    · cases hfield

end Member

/-! ### Forms of a model -/

section Forms
variable {ρ : Type} {M : DerivedModel} {data : String → Option String} {cleaned : FormCleaned} {object : Object ρ}
  {member : Member}

theorem formFields_nodup (M : DerivedModel) : (M.formFields.map (·.1)).Nodup := by
  rw [DerivedModel.formFields, List.Nodup, List.pairwise_map]
  refine (List.pairwise_map.mp M.idents_nodup).filterMap _ fun a b hab x hx y hy => ?_
  rcases Option.map_eq_some_iff.mp hx with ⟨_, _, rfl⟩
  rcases Option.map_eq_some_iff.mp hy with ⟨_, _, rfl⟩
  exact hab

/-- A member with a form field has a cleaned value, and what is assigned for it. -/
theorem assigned (valid : M.validateForm data = .ok cleaned) (hmember : member ∈ M.formMembers) :
    ∃ value, cleaned.lookup member.ident = some value ∧ ∃ held : Held ρ, member.assign value = .ok held ∧
      (member.Represents (submitted (data member.ident)) held ↔ member.Holds (submitted (data member.ident))) := by
  rcases List.mem_filter.mp hmember with ⟨hmem, hsome⟩
  rcases Option.isSome_iff_exists.mp hsome with ⟨field, hfield⟩
  have hform : (member.ident, field) ∈ M.formFields := List.mem_filterMap.mpr ⟨member, hmem, by rw [hfield]; rfl⟩
  rcases lookup_validated (formFields_nodup M) valid hform with ⟨value, hvalue, hclean⟩
  exact ⟨value, hvalue, Member.assign_ok hfield hclean⟩

/-- What a form stores for a member. -/
def stored (ρ : Type) (cleaned : FormCleaned) (member : Member) : Option (Held ρ) :=
  (cleaned.lookup member.ident).bind fun value => (member.assign value).toOption

theorem stored_eq (valid : M.validateForm data = .ok cleaned) (hmember : member ∈ M.formMembers) :
    ∃ value, cleaned.lookup member.ident = some value ∧ ∃ held : Held ρ, member.assign value = .ok held ∧
      stored ρ cleaned member = some held := by
  rcases assigned (ρ := ρ) valid hmember with ⟨value, hvalue, held, hheld, _⟩
  refine ⟨value, hvalue, held, hheld, ?_⟩
  rw [stored, hvalue, Option.bind_some, hheld]
  rfl

theorem mem_modelFields (hmember : member ∈ M.formMembers) : member ∈ M.modelFields := by
  rcases List.mem_filter.mp hmember with ⟨hmem, hsome⟩
  refine List.mem_filter.mpr ⟨hmem, ?_⟩
  cases member with
  | field f => rfl
  | relation r =>
    refine bne_iff_ne.mpr fun hkind => ?_
    rw [Member.formField?, if_pos hkind] at hsome
    cases hsome

theorem formMembers_nodup (M : DerivedModel) : (M.formMembers.map Member.ident).Nodup :=
  M.idents_nodup.sublist (List.filter_sublist.map _)

/-- A new instance has every value of the form. -/
theorem fromCleanedForm_ok (zeros : FieldType → ρ) (valid : M.validateForm data = .ok cleaned) :
    ∃ created, M.fromCleanedForm zeros cleaned = .ok created ∧
      ∀ member ∈ M.formMembers, created.lookup member.ident = stored ρ cleaned member := by
  have form : ∀ member, member ∈ M.modelFields → member.formField?.isSome → member ∈ M.formMembers :=
    fun member hmember hsome => List.mem_filter.mpr ⟨mem_members hmember, hsome⟩
  obtain ⟨created, hcreated⟩ : ∃ created, M.fromCleanedForm zeros cleaned = .ok created := by
    refine Except.mapM_isOk.mpr fun member hmember => ?_
    split
    · rename_i hsome
      rcases stored_eq (ρ := ρ) valid (form member hmember hsome) with ⟨value, hvalue, held, hheld, _⟩
      rw [hvalue]
      simp only [hheld]
      exact ⟨_, rfl⟩
    · exact ⟨_, rfl⟩
  have keys : created.map (·.1) = M.modelFields.map Member.ident := by
    refine Except.map_mapM hcreated fun member hmember entry hentry => ?_
    split at hentry
    · rename_i hsome
      rcases stored_eq (ρ := ρ) valid (form member hmember hsome) with ⟨value, hvalue, held, hheld, _⟩
      rw [hvalue] at hentry
      simp only [hheld] at hentry
      cases hentry
      rfl
    · cases hentry
      rfl
  refine ⟨created, hcreated, fun member hmember => ?_⟩
  obtain ⟨entry, hmem, hentry⟩ := Except.exists_mapM_of_mem hcreated (mem_modelFields hmember)
  rcases stored_eq (ρ := ρ) valid hmember with ⟨value, hvalue, held, hheld, hstored⟩
  rw [if_pos (List.mem_filter.mp hmember).2, hvalue] at hentry
  simp only [hheld] at hentry
  cases hentry
  rw [hstored]
  exact List.lookup_of_mem (keys ▸ modelFields_nodup) hmem

theorem Object.keys_set (object : Object ρ) (ident : String) (held : Held ρ) :
    (object.set ident held).map (·.1) = object.map (·.1) := by
  rw [Object.set, List.map_map]
  rfl

theorem Object.lookup_set_self {ident : String} (h : ident ∈ object.map (·.1)) (held : Held ρ) :
    (object.set ident held).lookup ident = some held := by
  induction object with
  | nil => cases h
  | cons entry object ih =>
    obtain ⟨key, old⟩ := entry
    rw [Object.set, List.map_cons, List.lookup_cons]
    split
    · rename_i heq
      rw [if_pos (beq_iff_eq.mp heq).symm]
    · rename_i hne
      refine ih ((List.mem_cons.mp h).resolve_left fun heq => ?_)
      rw [heq, beq_self_eq_true] at hne
      cases hne

/-- The members of a list are set one after the other. -/
theorem foldlM_assign {f : Object ρ → Member → Except Stop (Object ρ)} {members : List Member}
    (hf : ∀ object member value held, cleaned.lookup member.ident = some value → member.assign value = .ok held →
      f object member = .ok (object.set member.ident held))
    (hmembers : ∀ member ∈ members, member ∈ M.formMembers) (distinct : (members.map Member.ident).Nodup)
    (valid : M.validateForm data = .ok cleaned) (keys : ∀ member ∈ members, member.ident ∈ object.map (·.1)) :
    ∃ edited, members.foldlM f object = .ok edited ∧
      (∀ member ∈ members, edited.lookup member.ident = stored ρ cleaned member) ∧
        ∀ name, (∀ member ∈ members, member.ident ≠ name) → edited.lookup name = object.lookup name := by
  induction members generalizing object with
  | nil => exact ⟨object, rfl, by simp, fun _ _ => rfl⟩
  | cons first members ih =>
    rw [List.map_cons, List.nodup_cons] at distinct
    rcases stored_eq (ρ := ρ) valid (hmembers first (List.mem_cons_self ..)) with ⟨value, hvalue, held, hheld, hstored⟩
    rcases @ih (object.set first.ident held) (fun member h => hmembers member (List.mem_cons_of_mem _ h)) distinct.2
      (fun member h => by
        rw [Object.keys_set]
        exact keys member (List.mem_cons_of_mem _ h)) with ⟨edited, hedited, hset, hkept⟩
    have others : ∀ member ∈ members, member.ident ≠ first.ident := fun member h heq =>
      distinct.1 (heq ▸ List.mem_map_of_mem h)
    refine ⟨edited, ?_, ?_, ?_⟩
    · rw [List.foldlM_cons, hf object first value held hvalue hheld]
      exact hedited
    · intro member hmember
      rcases List.mem_cons.mp hmember with rfl | hmember
      · rw [hkept _ others, Object.lookup_set_self (keys _ (List.mem_cons_self ..)), hstored]
      · exact hset member hmember
    · intro name hname
      rw [hkept name fun member h => hname member (List.mem_cons_of_mem _ h)]
      exact Object.lookup_set object held (hname first (List.mem_cons_self ..)).symm

/-- An instance that is edited has every value of the form, and keeps the others. -/
theorem applyCleanedForm_ok (instance_of : object.map (·.1) = M.modelFields.map Member.ident)
    (valid : M.validateForm data = .ok cleaned) :
    ∃ edited, M.applyCleanedForm cleaned object = .ok edited ∧
      (∀ member ∈ M.formMembers, edited.lookup member.ident = stored ρ cleaned member) ∧
        ∀ name, (∀ member ∈ M.formMembers, member.ident ≠ name) → edited.lookup name = object.lookup name := by
  refine foldlM_assign (fun object member value held hvalue hheld => ?_) (fun _ h => h) (formMembers_nodup M) valid
    fun member hmember => ?_
  · rw [hvalue]
    simp only [hheld]
    rfl
  · rw [instance_of]
    exact List.mem_map_of_mem (mem_modelFields hmember)

end Forms

/-! ### What is owed -/

section Faithful
variable {ρ : Type} (M : DerivedModel) (data : String → Option String) (zeros : FieldType → ρ) (object : Object ρ)
  (cleaned : FormCleaned)

/-- Neither function panics, both store for each form field what was submitted, and an instance that is edited keeps
    everything else. -/
def FaithfulForm : Prop :=
  ∃ created edited, M.fromCleanedForm zeros cleaned = .ok created ∧ M.applyCleanedForm cleaned object = .ok edited ∧
    (∀ member ∈ M.formMembers, ∃ held held', created.lookup member.ident = some held ∧
      edited.lookup member.ident = some held' ∧ member.Represents (submitted (data member.ident)) held ∧
        member.Represents (submitted (data member.ident)) held') ∧
      ∀ name, (∀ member ∈ M.formMembers, member.ident ≠ name) → edited.lookup name = object.lookup name

variable {M data object cleaned}

/-- A validated form loses nothing exactly when its members can hold what was submitted. -/
theorem faithfulForm_iff (instance_of : object.map (·.1) = M.modelFields.map Member.ident)
    (valid : M.validateForm data = .ok cleaned) :
    FaithfulForm M data zeros object cleaned ↔ ∀ member ∈ M.formMembers, member.Holds (submitted (data member.ident)) := by
  obtain ⟨created, hcreated, hnew⟩ := fromCleanedForm_ok zeros valid
  obtain ⟨edited, hedited, hset, hkept⟩ := applyCleanedForm_ok instance_of valid
  have holds : ∀ member ∈ M.formMembers, ∃ held : Held ρ, stored ρ cleaned member = some held ∧
      (member.Represents (submitted (data member.ident)) held ↔ member.Holds (submitted (data member.ident))) := by
    intro member hmember
    obtain ⟨value, hvalue, held, hheld, hiff⟩ := assigned (ρ := ρ) valid hmember
    refine ⟨held, ?_, hiff⟩
    rw [stored, hvalue, Option.bind_some, hheld]
    rfl
  constructor
  · rintro ⟨created', edited', hcreated', _, hfields, _⟩ member hmember
    obtain rfl := Except.ok.inj (hcreated.symm.trans hcreated')
    obtain ⟨held, _, hheld, _, hrepresents, _⟩ := hfields member hmember
    obtain ⟨held', hstored, hiff⟩ := holds member hmember
    rw [hnew member hmember, hstored] at hheld
    obtain rfl := Option.some_inj.mp hheld
    exact hiff.mp hrepresents
  · intro all
    refine ⟨created, edited, hcreated, hedited, fun member hmember => ?_, hkept⟩
    obtain ⟨held, hstored, hiff⟩ := holds member hmember
    have represents := hiff.mpr (all member hmember)
    exact ⟨held, held, (hnew member hmember).trans hstored, (hset member hmember).trans hstored, represents, represents⟩

end Faithful

/-! ### A number of pages -/

def bookMembers : List Member :=
  [.field { ident := "id", columnName := "id", type := .i64, primaryKey := true, auto := true },
    .field { ident := "pages", columnName := "pages", type := .i32 }]

theorem bookMembers_idents : (bookMembers.map Member.ident).Nodup := by decide

theorem bookMembers_columns : (bookMembers.map Member.columnName).Nodup := by decide

def bookModel : DerivedModel where
  structName := "Book"
  appLabel := "library"
  tableName := "library_book"
  members := bookMembers
  idents_nodup := bookMembers_idents
  columns_nodup := bookMembers_columns
  one_pk := ⟨_, rfl⟩

def book : Object String := [("id", .int 7), ("pages", .int 100)]

def withPages (pages name : String) : Option String := if name = "pages" then some pages else none

theorem pages_holds (s : String) :
    (∀ member ∈ bookModel.formMembers, member.Holds (submitted (withPages s member.ident))) ↔
      (Member.field { ident := "pages", columnName := "pages", type := .i32 }).Holds (submitted (some s)) :=
  List.forall_mem_singleton

/-- A number of pages that an `i32` has is kept. -/
theorem pages_kept : bookModel.validateForm (withPages "320") = .ok [("pages", .integer (some 320))] ∧
    FaithfulForm bookModel (withPages "320") (fun _ => "") book [("pages", .integer (some 320))] := by
  have valid : bookModel.validateForm (withPages "320") = .ok [("pages", .integer (some 320))] := rfl
  refine ⟨valid, (faithfulForm_iff (fun _ => "") rfl valid).mpr ((pages_holds "320").mpr fun _ n hn => ?_)⟩
  have parsed : Text.parseSigned (2 ^ 63) "320".toList = some 320 := by decide +kernel
  obtain rfl := Option.some_inj.mp (parsed.symm.trans hn)
  decide

/-- A greater one is cut off. -/
theorem pages_wrapped : ∃ cleaned, bookModel.validateForm (withPages "4294967297") = .ok cleaned ∧
    ¬FaithfulForm bookModel (withPages "4294967297") (fun _ => "") book cleaned := by
  refine ⟨[("pages", .integer (some 4294967297))], rfl, ?_⟩
  rintro ⟨created, _, hcreated, _, hfields, _⟩
  have stored : bookModel.fromCleanedForm (fun _ => "") [("pages", .integer (some 4294967297))] =
      .ok [("id", .int 0), ("pages", .int 1)] := rfl
  obtain rfl := Except.ok.inj (stored.symm.trans hcreated)
  obtain ⟨held, _, hheld, _, ⟨n, hn, rfl⟩, _⟩ := hfields _ (List.mem_singleton_self _)
  have parsed : Text.parseSigned (2 ^ 63) "4294967297".toList = some 4294967297 := by decide +kernel
  obtain rfl := Option.some_inj.mp (parsed.symm.trans hn)
  cases hheld

end Djangors.Orm
