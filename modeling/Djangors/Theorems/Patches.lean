import Djangors.Rest.Endpoints
import Djangors.Theorems.Assignments
import Djangors.Theorems.ListEndpoints
import Djangors.Theorems.SufficientBodies

/-! # What a `PATCH` changes

Both handlers of `PATCH` write the values that they read from a body with one `UPDATE` of the row, and then read the row
again. They differ in what they read: `update_with_options` reads what the body names, and the scoped `update` a whole
instance, in which what is not named has a default. -/

namespace Djangors.Rest
open Db Http Orm Sql

/-! ### Members and columns -/

section Members
variable {m : ModelMeta}

/-- The name of a field or a relation. -/
def Member (m : ModelMeta) (name : String) : Prop := name ∈ m.fields.map (·.name) ++ m.relations.map (·.fieldName)

/-- The column of a member. -/
def column (m : ModelMeta) (name : String) : String := (fieldToCol m name).name

/-- The names of the members differ, and so do their columns. -/
structure WellNamed (m : ModelMeta) : Prop where
  names : NamesDiffer m
  columns : (m.fields.map (·.columnName) ++ m.relations.map (·.fieldName)).Nodup

theorem field_unique (differ : NamesDiffer m) {field other : FieldMeta} (hfield : field ∈ m.fields) (hother : other ∈ m.fields)
    (h : field.name = other.name) : field = other :=
  List.inj_on_of_nodup_map (List.nodup_append.mp differ).1 hfield hother h

theorem relation_unique (differ : NamesDiffer m) {relation other : RelationMeta} (hrelation : relation ∈ m.relations)
    (hother : other ∈ m.relations) (h : relation.fieldName = other.fieldName) : relation = other :=
  List.inj_on_of_nodup_map (List.nodup_append.mp differ).2.1 hrelation hother h

theorem field_ne_relation (differ : NamesDiffer m) {field : FieldMeta} {relation : RelationMeta} (hfield : field ∈ m.fields)
    (hrelation : relation ∈ m.relations) : field.name ≠ relation.fieldName :=
  (List.nodup_append.mp differ).2.2 _ (List.mem_map_of_mem hfield) _ (List.mem_map_of_mem hrelation)

theorem member_field {field : FieldMeta} (h : field ∈ m.fields) : Member m field.name :=
  List.mem_append_left _ (List.mem_map_of_mem h)

theorem member_relation {relation : RelationMeta} (h : relation ∈ m.relations) : Member m relation.fieldName :=
  List.mem_append_right _ (List.mem_map_of_mem h)

theorem column_field (differ : NamesDiffer m) {field : FieldMeta} (h : field ∈ m.fields) :
    column m field.name = field.columnName := by
  have hfound : m.field? field.name = some field :=
    (List.find?_key_eq_some (List.nodup_append.mp differ).1).mpr ⟨h, rfl⟩
  rw [column, fieldToCol, hfound]
  rfl

theorem column_relation (differ : NamesDiffer m) {relation : RelationMeta} (h : relation ∈ m.relations) :
    column m relation.fieldName = relation.fieldName := by
  have hnone : m.field? relation.fieldName = none := List.find?_key_eq_none.mpr fun hmem => by
    obtain ⟨field, hfield, heq⟩ := List.mem_map.mp hmem
    exact field_ne_relation differ hfield h heq
  have hfound : m.relation? relation.fieldName = some relation :=
    (List.find?_key_eq_some (List.nodup_append.mp differ).2.1).mpr ⟨h, rfl⟩
  rw [column, fieldToCol, hnone, hfound]
  rfl

theorem WellNamed.column_inj (named : WellNamed m) {name name' : String} (h : Member m name) (h' : Member m name')
    (heq : column m name = column m name') : name = name' := by
  have hmap : (m.fields.map (·.name) ++ m.relations.map (·.fieldName)).map (column m) =
      m.fields.map (·.columnName) ++ m.relations.map (·.fieldName) := by
    rw [List.map_append, List.map_map, List.map_map]
    congr 1
    · exact List.map_congr_left fun field hfield => column_field named.names hfield
    · exact List.map_congr_left fun relation hrelation => column_relation named.names hrelation
  exact List.inj_on_of_nodup_map (hmap ▸ named.columns) h h' heq

theorem member_known {name : String} (h : Member m name) : ¬Unknown m name := by
  rintro ⟨hfield, hrelation⟩
  rcases List.mem_append.mp h with h | h
  · exact List.find?_key_eq_none.mp hfield h
  · exact List.find?_key_eq_none.mp hrelation h

/-- A field has a column in the table. -/
theorem column_mem_field (differ : NamesDiffer m) {field : FieldMeta} (h : field ∈ m.fields) :
    column m field.name ∈ m.columns := by
  rw [column_field differ h]
  exact List.mem_append_left _ (List.mem_map_of_mem h)

/-- A relation has one unless it is a link to many rows. -/
theorem WellNamed.column_mem_relation (named : WellNamed m) {relation : RelationMeta} (h : relation ∈ m.relations) :
    column m relation.fieldName ∈ m.columns ↔ relation.kind ≠ .manyToMany := by
  rw [column_relation named.names h, ModelMeta.columns, List.mem_append]
  constructor
  · rintro (hmem | hmem)
    · exact absurd rfl ((List.nodup_append.mp named.columns).2.2 _ hmem _ (List.mem_map_of_mem h))
    · obtain ⟨other, hother, heq⟩ := List.mem_map.mp hmem
      obtain ⟨hother, hkind⟩ := List.mem_filter.mp hother
      obtain rfl := relation_unique named.names hother h heq
      exact bne_iff_ne.mp hkind
  · exact fun hkind => .inr (List.mem_map_of_mem (List.mem_filter.mpr ⟨h, bne_iff_ne.mpr hkind⟩))

theorem lookup_storedCells (named : WellNamed m) {values : List (String × Value)} (members : ∀ value ∈ values, Member m value.1)
    {name : String} (h : Member m name) :
    (storedCells m values).lookup (column m name) = (values.lookup name).map (storedCell m name) := by
  induction values with
  | nil => rfl
  | cons value values ih =>
    obtain ⟨other, v⟩ := value
    have hcons : storedCells m ((other, v) :: values) = (column m other, storedCell m other v) :: storedCells m values := rfl
    rw [hcons, lookup_cons_if, lookup_cons_if, ih fun value hvalue => members value (List.mem_cons_of_mem _ hvalue)]
    by_cases heq : name = other
    · subst heq
      rw [if_pos rfl, if_pos rfl]
      rfl
    · rw [if_neg heq, if_neg fun hcolumn => heq (named.column_inj h (members _ List.mem_cons_self) hcolumn)]

end Members

/-! ### The row that is written -/

section Written
variable [Wire] {m : ModelMeta} {entries : List (List Char × Json F64)} {partly : Bool} {r : Row Cell}

/-- The body has an entry of a name. -/
def Named (entries : List (List Char × Json F64)) (name : String) : Prop := (getEntry (.object entries) name).isSome = true

/-- The values that a handler reads from a body. -/
def readValues (m : ModelMeta) (entries : List (List Char × Json F64)) (partly : Bool) : List (String × Value) :=
  (readFields m (.object entries) partly).filterMap valueOf

/-- The row with the values in their columns. -/
def patched (m : ModelMeta) (entries : List (List Char × Json F64)) (partly : Bool) (r : Row Cell) : Row Cell :=
  r.setAll (storedCells m (readValues m entries partly))

/-- The value that a body gives for a member. -/
def Given (m : ModelMeta) (entries : List (List Char × Json F64)) (name : String) (v : Value) : Prop :=
  (∃ field ∈ m.fields, field.name = name ∧ ∃ json, getEntry (.object entries) name = some json ∧
    readField field (some json) = .ok v) ∨
  ∃ relation ∈ m.relations, relation.fieldName = name ∧ ∃ json, getEntry (.object entries) name = some json ∧
    readRelation relation (some json) = .ok v

/-- A row has the values that a body gives in the columns that it names, and is as it was in the others. -/
structure SetsOnly (m : ModelMeta) (entries : List (List Char × Json F64)) (r r' : Row Cell) : Prop where
  named : ∀ name, Member m name → Named entries name →
    ∃ v, Given m entries name v ∧ r'.lookup (column m name) = some (storedCell m name v)
  others : ∀ c, (∀ name, Member m name → Named entries name → column m name ≠ c) → r'.lookup c = r.lookup c

theorem mem_readFields {json : Json F64} {name : String} {result : Except String Value} :
    (name, result) ∈ readFields m json partly ↔
      (∃ field ∈ m.fields, field.auto = false ∧ (partly = true → (getEntry json field.name).isSome = true) ∧
        field.name = name ∧ readField field (getEntry json field.name) = result) ∨
      ∃ relation ∈ m.relations, (partly = true → (getEntry json relation.fieldName).isSome = true) ∧
        relation.fieldName = name ∧ readRelation relation (getEntry json relation.fieldName) = result := by
  simp only [readFields, List.mem_append, List.mem_map, List.mem_filter, Bool.and_eq_true, Bool.not_eq_true',
    Bool.and_eq_false_iff, Prod.mk.injEq, Option.isNone_eq_false_iff]
  cases partly <;> simp [and_assoc]

theorem mem_readValues {value : String × Value} :
    value ∈ readValues m entries partly ↔ (value.1, .ok value.2) ∈ readFields m (.object entries) partly := by
  rw [readValues, List.mem_filterMap]
  constructor
  · rintro ⟨⟨name, _ | v⟩, hmem, heq⟩
    · cases heq
    · cases heq
      exact hmem
  · exact fun h => ⟨_, h, rfl⟩

theorem readValues_member {value : String × Value} (h : value ∈ readValues m entries partly) : Member m value.1 := by
  rcases mem_readFields.mp (mem_readValues.mp h) with ⟨field, hfield, -, -, hname, -⟩ | ⟨relation, hrelation, -, hname, -⟩
  · exact hname ▸ member_field hfield
  · exact hname ▸ member_relation hrelation

theorem readValues_nodup (differ : NamesDiffer m) : ((readValues m entries partly).map (·.1)).Nodup := by
  have hvalues {results : List (String × Except String Value)} :
      ((results.filterMap valueOf).map (·.1)).Sublist (results.map (·.1)) := by
    induction results with
    | nil => exact .slnil
    | cons result results ih =>
      obtain ⟨name, _ | v⟩ := result
      · exact ih.cons _
      · exact ih.cons_cons _
  refine differ.sublist (hvalues.trans ?_)
  simp only [readFields, List.map_append, List.map_map]
  exact (List.filter_sublist.map _).append (List.filter_sublist.map _)

theorem storedCells_nodup (named : WellNamed m) : ((storedCells m (readValues m entries partly)).map (·.1)).Nodup := by
  have hcolumns : (storedCells m (readValues m entries partly)).map (·.1) =
      ((readValues m entries partly).map (·.1)).map (column m) := by
    rw [storedCells, List.map_map, List.map_map]
    rfl
  rw [hcolumns]
  refine (readValues_nodup named.names).map_on fun name hname name' hname' heq => ?_
  obtain ⟨value, hvalue, rfl⟩ := List.mem_map.mp hname
  obtain ⟨value', hvalue', rfl⟩ := List.mem_map.mp hname'
  exact named.column_inj (readValues_member hvalue) (readValues_member hvalue') heq

/-- A member that is read has its value in the row, and the others what they had. -/
theorem lookup_patched (named : WellNamed m) {name : String} (h : Member m name) :
    (patched m entries partly r).lookup (column m name) = (r.lookup (column m name)).map fun old =>
      (((readValues m entries partly).lookup name).map (storedCell m name)).getD old := by
  rw [patched, Row.lookup_setAll (storedCells_nodup named), lookup_storedCells named (fun _ => readValues_member) h]

theorem lookup_patched_other (named : WellNamed m) {c : String}
    (h : ∀ value ∈ readValues m entries partly, column m value.1 ≠ c) : (patched m entries partly r).lookup c = r.lookup c := by
  have hnone : (storedCells m (readValues m entries partly)).lookup c = none := by
    rw [List.lookup_eq_none_iff]
    intro cell hcell
    obtain ⟨value, hvalue, rfl⟩ := List.mem_map.mp hcell
    exact bne_iff_ne.mpr fun heq => h value hvalue heq.symm
  rw [patched, Row.lookup_setAll (storedCells_nodup named), hnone]
  cases r.lookup c <;> rfl

/-! ### What is left alone -/

/-- What the body does not give has the value already that is written for it: an auto field that it names has the value
    that it gives, and in a whole body what it leaves out has its default. -/
structure Untouched (m : ModelMeta) (entries : List (List Char × Json F64)) (partly : Bool) (r : Row Cell) : Prop where
  autos : ∀ field ∈ m.fields, field.auto = true → ∀ json, getEntry (.object entries) field.name = some json →
    ∃ v, readField field (some json) = .ok v ∧ r.lookup field.columnName = some (storedCell m field.name v)
  fields : partly = false → ∀ field ∈ m.fields, field.auto = false → getEntry (.object entries) field.name = none →
    r.lookup field.columnName = some (if field.nullable then .null else .bool false)
  relations : partly = false → ∀ relation ∈ m.relations, getEntry (.object entries) relation.fieldName = none →
    r.lookup relation.fieldName = some .null

/-- Every field that is read has a value. -/
def Taken (m : ModelMeta) (entries : List (List Char × Json F64)) (partly : Bool) : Prop :=
  ∀ result ∈ readFields m (.object entries) partly, ∃ v, result.2 = .ok v

/-- The values that are read have columns. -/
def HaveColumns (m : ModelMeta) (entries : List (List Char × Json F64)) (partly : Bool) : Prop :=
  ∀ value ∈ readValues m entries partly, column m value.1 ∈ m.columns

/-- The row has the columns of the model. -/
def Filled (m : ModelMeta) (r : Row Cell) : Prop := ∀ c ∈ m.columns, ∃ cell, r.lookup c = some cell

/-- What is read of a field that is not auto. -/
theorem lookup_field (differ : NamesDiffer m) {field : FieldMeta} (h : field ∈ m.fields) (hauto : field.auto = false)
    (hread : partly = true → Named entries field.name) {v : Value}
    (hv : readField field (getEntry (.object entries) field.name) = .ok v) :
    (field.name, v) ∈ readValues m entries partly ∧ (readValues m entries partly).lookup field.name = some v := by
  have hmem : (field.name, v) ∈ readValues m entries partly :=
    mem_readValues.mpr (mem_readFields.mpr (.inl ⟨field, h, hauto, hread, rfl, hv⟩))
  exact ⟨hmem, List.lookup_of_mem (readValues_nodup differ) hmem⟩

theorem lookup_relation (differ : NamesDiffer m) {relation : RelationMeta} (h : relation ∈ m.relations)
    (hread : partly = true → Named entries relation.fieldName) {v : Value}
    (hv : readRelation relation (getEntry (.object entries) relation.fieldName) = .ok v) :
    (relation.fieldName, v) ∈ readValues m entries partly ∧
      (readValues m entries partly).lookup relation.fieldName = some v := by
  have hmem : (relation.fieldName, v) ∈ readValues m entries partly :=
    mem_readValues.mpr (mem_readFields.mpr (.inr ⟨relation, h, hread, rfl, hv⟩))
  exact ⟨hmem, List.lookup_of_mem (readValues_nodup differ) hmem⟩

/-- Nothing is read of an auto field. -/
theorem lookup_auto (differ : NamesDiffer m) {field : FieldMeta} (h : field ∈ m.fields) (hauto : field.auto = true) :
    (readValues m entries partly).lookup field.name = none := by
  rw [List.lookup_eq_none_iff]
  intro value hvalue
  refine bne_iff_ne.mpr fun heq => ?_
  rcases mem_readFields.mp (mem_readValues.mp hvalue) with ⟨other, hother, hnot, -, hname, -⟩ | ⟨relation, hrelation, -, hname, -⟩
  · obtain rfl := field_unique differ h hother (heq.trans hname.symm)
    rw [hauto] at hnot
    cases hnot
  · exact field_ne_relation differ h hrelation (heq.trans hname.symm)

/-- The default of a field that may be left out. -/
theorem readField_none_eq {field : FieldMeta} {v : Value} (h : readField field none = .ok v) :
    storedCell m field.name v = if field.nullable then .null else .bool false := by
  by_cases hkind : field.kind = .boolean
  · cases hnull : field.nullable <;> simp [readField, hkind, readBool, hnull] at h <;> subst h <;> rfl
  · cases hnull : field.nullable
    · simp [readField, hkind, hnull] at h
    · simp [readField, hkind, hnull] at h
      subst h
      rfl

theorem Taken.field (taken : Taken m entries partly) {field : FieldMeta} (h : field ∈ m.fields) (hauto : field.auto = false)
    (hread : partly = true → Named entries field.name) :
    ∃ v, readField field (getEntry (.object entries) field.name) = .ok v :=
  taken (field.name, _) (mem_readFields.mpr (.inl ⟨field, h, hauto, hread, rfl, rfl⟩))

theorem Taken.relation (taken : Taken m entries partly) {relation : RelationMeta} (h : relation ∈ m.relations)
    (hread : partly = true → Named entries relation.fieldName) :
    ∃ v, readRelation relation (getEntry (.object entries) relation.fieldName) = .ok v :=
  taken (relation.fieldName, _) (mem_readFields.mpr (.inr ⟨relation, h, hread, rfl, rfl⟩))

/-- The cell of a member that is read is the one of its value. -/
theorem lookup_patched_read (named : WellNamed m) (filled : Filled m r) (columns : HaveColumns m entries partly) {name : String}
    {v : Value} (h : (name, v) ∈ readValues m entries partly ∧ (readValues m entries partly).lookup name = some v) :
    (patched m entries partly r).lookup (column m name) = some (storedCell m name v) := by
  obtain ⟨cell, hcell⟩ := filled _ (columns _ h.1)
  rw [lookup_patched named (readValues_member h.1), hcell, h.2]
  rfl

theorem lookup_patched_auto (named : WellNamed m) {field : FieldMeta} (h : field ∈ m.fields) (hauto : field.auto = true) :
    (patched m entries partly r).lookup (column m field.name) = r.lookup field.columnName := by
  rw [lookup_patched named (member_field h), lookup_auto named.names h hauto, column_field named.names h]
  cases r.lookup field.columnName <;> rfl

/-- What a body gives for a field is read from it. -/
theorem given_field (differ : NamesDiffer m) {field : FieldMeta} (h : field ∈ m.fields) {v : Value}
    (hgiven : Given m entries field.name v) : readField field (getEntry (.object entries) field.name) = .ok v := by
  rcases hgiven with ⟨other, hother, hname, json, hjson, hv⟩ | ⟨relation, hrelation, hname, -⟩
  · obtain rfl := field_unique differ h hother hname.symm
    rw [hjson, hv]
  · exact absurd hname.symm (field_ne_relation differ h hrelation)

theorem untouched_of_setsOnly (named : WellNamed m) (filled : Filled m r) (taken : Taken m entries partly)
    (columns : HaveColumns m entries partly) (sets : SetsOnly m entries r (patched m entries partly r)) :
    Untouched m entries partly r where
  autos field hfield hauto json hjson := by
    obtain ⟨v, hgiven, hcell⟩ := sets.named field.name (member_field hfield) (by rw [Named, hjson]; rfl)
    have hv := given_field named.names hfield hgiven
    rw [hjson] at hv
    rw [lookup_patched_auto named hfield hauto] at hcell
    exact ⟨v, hv, hcell⟩
  fields hwhole field hfield hauto hnone := by
    have hread : partly = true → Named entries field.name := fun hpartly => absurd (hwhole.symm.trans hpartly) Bool.false_ne_true
    obtain ⟨v, hv⟩ := taken.field hfield hauto hread
    have hcell := lookup_patched_read named filled columns (lookup_field named.names hfield hauto hread hv)
    rw [hnone] at hv
    rw [readField_none_eq hv, column_field named.names hfield] at hcell
    rw [← hcell]
    refine (sets.others field.columnName fun name hmember hnamed heq => ?_).symm
    rw [← column_field named.names hfield] at heq
    rw [named.column_inj hmember (member_field hfield) heq, Named, hnone] at hnamed
    cases hnamed
  relations hwhole relation hrelation hnone := by
    have hread : partly = true → Named entries relation.fieldName :=
      fun hpartly => absurd (hwhole.symm.trans hpartly) Bool.false_ne_true
    have hv : readRelation relation (getEntry (.object entries) relation.fieldName) = .ok .null := by rw [hnone, readRelation]
    have hcell := lookup_patched_read named filled columns (lookup_relation named.names hrelation hread hv)
    have hnull : storedCell m relation.fieldName .null = .null := rfl
    rw [column_relation named.names hrelation, hnull] at hcell
    rw [← hcell]
    refine (sets.others relation.fieldName fun name hmember hnamed heq => ?_).symm
    rw [← column_relation named.names hrelation] at heq
    rw [named.column_inj hmember (member_relation hrelation) heq, Named, hnone] at hnamed
    cases hnamed

theorem setsOnly_of_untouched (named : WellNamed m) (filled : Filled m r) (taken : Taken m entries partly)
    (columns : HaveColumns m entries partly) (untouched : Untouched m entries partly r) :
    SetsOnly m entries r (patched m entries partly r) where
  named name hmember hnamed := by
    obtain ⟨json, hjson⟩ := Option.isSome_iff_exists.mp hnamed
    rcases List.mem_append.mp hmember with hmember | hmember
    · obtain ⟨field, hfield, rfl⟩ := List.mem_map.mp hmember
      cases hauto : field.auto with
      | true =>
        obtain ⟨v, hv, hcell⟩ := untouched.autos field hfield hauto json hjson
        exact ⟨v, .inl ⟨field, hfield, rfl, json, hjson, hv⟩, (lookup_patched_auto named hfield hauto).trans hcell⟩
      | false =>
        obtain ⟨v, hv⟩ := taken.field hfield hauto fun _ => hnamed
        have hcell := lookup_patched_read named filled columns (lookup_field named.names hfield hauto (fun _ => hnamed) hv)
        exact ⟨v, .inl ⟨field, hfield, rfl, json, hjson, hjson ▸ hv⟩, hcell⟩
    · obtain ⟨relation, hrelation, rfl⟩ := List.mem_map.mp hmember
      obtain ⟨v, hv⟩ := taken.relation hrelation fun _ => hnamed
      have hcell := lookup_patched_read named filled columns (lookup_relation named.names hrelation (fun _ => hnamed) hv)
      exact ⟨v, .inr ⟨relation, hrelation, rfl, json, hjson, hjson ▸ hv⟩, hcell⟩
  others c hothers := by
    -- A column that is written though it is not named has its default already.
    by_cases hwritten : ∃ value ∈ readValues m entries partly, column m value.1 = c
    · obtain ⟨⟨name, v⟩, hvalue, rfl⟩ := hwritten
      have hunnamed : ¬Named entries name := fun hnamed => hothers name (readValues_member hvalue) hnamed rfl
      have hnone : getEntry (.object entries) name = none := by
        rw [Named, Option.isSome_iff_ne_none, not_not] at hunnamed
        exact hunnamed
      have hcell := lookup_patched_read named filled columns ⟨hvalue, List.lookup_of_mem (readValues_nodup named.names) hvalue⟩
      rw [hcell]
      rcases mem_readFields.mp (mem_readValues.mp hvalue) with
        ⟨field, hfield, hauto, hread, rfl, hv⟩ | ⟨relation, hrelation, hread, rfl, hv⟩
      · have hwhole : partly = false := Bool.eq_false_iff.mpr fun hpartly => hunnamed (hread hpartly)
        rw [hnone] at hv
        rw [column_field named.names hfield, untouched.fields hwhole field hfield hauto hnone, readField_none_eq hv]
      · have hwhole : partly = false := Bool.eq_false_iff.mpr fun hpartly => hunnamed (hread hpartly)
        rw [hnone, readRelation] at hv
        cases hv
        rw [column_relation named.names hrelation, untouched.relations hwhole relation hrelation hnone]
        rfl
    · exact lookup_patched_other named fun value hvalue heq => hwritten ⟨value, hvalue, heq⟩

/-- The row that is written has what the body gives, and only that, if what the body does not give is untouched. -/
theorem setsOnly_iff (named : WellNamed m) (filled : Filled m r) (taken : Taken m entries partly)
    (columns : HaveColumns m entries partly) :
    SetsOnly m entries r (patched m entries partly r) ↔ Untouched m entries partly r :=
  ⟨untouched_of_setsOnly named filled taken columns, setsOnly_of_untouched named filled taken columns⟩

end Written

/-! ### The statements -/

section Statements

theorem checkSets {m : ModelMeta} {values : List (String × Value)} (members : ∀ value ∈ values, Member m value.1) :
    (literals values).forM (QuerySet.checkSet m) = .ok () := by
  induction values with
  | nil => rfl
  | cons value values ih =>
    have hcheck : QuerySet.checkSet m (value.1, .literal value.2) = .ok () := by
      obtain ⟨field, hfield⟩ := checkFieldMeta_isOk.mpr (member_known (members value List.mem_cons_self))
      rw [QuerySet.checkSet, hfield]
      rfl
    have hrest := ih fun other hother => members other (List.mem_cons_of_mem _ hother)
    show (QuerySet.checkSet m (value.1, .literal value.2) >>= fun _ => (literals values).forM _) = _
    rw [hcheck]
    exact hrest

variable [Fmt] {m : ModelMeta} (S : Server) (db : Tables Cell) (qs : QuerySet m)

/-- The tables with another row in place of those that a query set selects. -/
def replaced (r' : Row Cell) : Tables Cell :=
  Function.update db m.tableName ((db m.tableName).map fun row => if qs.keeps S db row then r' else row)

variable {S db qs} {r : Row Cell} {values : List (String × Value)}

/-- The rows after an `UPDATE` of the one row that a query set selects. -/
theorem replaced_setAll (selected : (db m.tableName).filter (qs.keeps S db) = [r]) (cells : List (String × Cell)) :
    ((db m.tableName).map fun row => if qs.keeps S db row then row.setAll cells else row) =
      (db m.tableName).map fun row => if qs.keeps S db row then r.setAll cells else row := by
  refine List.map_congr_left fun row hrow => ?_
  split
  · rename_i hkept
    have hmem : row ∈ (db m.tableName).filter (qs.keeps S db) := List.mem_filter.mpr ⟨hrow, hkept⟩
    rw [selected, List.mem_singleton] at hmem
    rw [hmem]
  · rfl

theorem commit_refused {r' : Row Cell} {message : String} (h : S.refuses db (replaced S db qs r') = some message) :
    S.commit db m.tableName ((db m.tableName).map fun row => if qs.keeps S db row then r' else row) =
      .error (.query message) := by
  rw [replaced] at h
  simp only [Server.commit, h]

theorem commit_taken {r' : Row Cell} (h : S.refuses db (replaced S db qs r') = none) :
    S.commit db m.tableName ((db m.tableName).map fun row => if qs.keeps S db row then r' else row) =
      .ok (replaced S db qs r') := by
  rw [replaced] at h ⊢
  simp only [Server.commit, h]

/-- Without values the `UPDATE` is no statement, and else the server may refuse what it makes of the table. -/
theorem runUpdate_eq (members : ∀ value ∈ values, Member m value.1)
    (selected : (db m.tableName).filter (qs.keeps S db) = [r]) :
    (qs.update S.dialect (literals values)).bind (S.runUpdate db) =
      if values = [] then .error Server.syntaxError
      else (S.commit db m.tableName ((db m.tableName).map fun row =>
        if qs.keeps S db row then r.setAll (storedCells m values) else row)).map fun after => (after, 1) := by
  obtain ⟨u, hu⟩ : ∃ u, qs.update S.dialect (literals values) = .ok u := by
    rw [QuerySet.update, checkSets members]
    exact ⟨_, rfl⟩
  obtain ⟨htable, hbound⟩ := qs.update_bound S.dialect hu
  have hsets : u.sets.isEmpty = decide (values = []) := by
    rw [QuerySet.update, checkSets members] at hu
    cases hu
    cases values <;> rfl
  have hselects (row : Row Cell) :
      S.selects db m.tableName (.ofFilters (qs.boundFilters S.dialect)) row = qs.keeps S db row := selects_ofFilters S db _ _ row
  have hrows : (db m.tableName).mapM (fun row =>
      if S.selects db m.tableName (.ofFilters (qs.boundFilters S.dialect)) row then S.assignRow u row else some row) =
      some ((db m.tableName).map fun row => if qs.keeps S db row then r.setAll (storedCells m values) else row) := by
    rw [← replaced_setAll selected]
    refine Eq.trans (congrArg (List.mapM · (db m.tableName)) (funext fun row => ?_)) List.mapM_pure
    rw [assignRow_literals hu S row, hselects]
    split <;> rfl
  have hcount : ((db m.tableName).filter (S.selects db m.tableName (.ofFilters (qs.boundFilters S.dialect)))).length = 1 := by
    rw [funext hselects, selected]
    rfl
  rw [hu]
  show S.runUpdate db u = _
  rw [Server.runUpdate, hsets, hbound, htable]
  by_cases hvalues : values = []
  · simp [hvalues]
  · simp only [hvalues, decide_false, Bool.false_eq_true, if_false]
    split
    · rename_i text hdangling
      exact absurd hdangling (Where.ofFilters_ne_dangling _ text)
    · rw [hrows, hcount]
      rfl

end Statements

/-! ### The handlers -/

section Handlers

theorem orFail_ok {m : Model} {α β : Type} {result : Except DjangorsError α} {a : α} (h : result = .ok a) (f : α → Action m β) :
    (orFail result >>= f) = f a := by
  rw [h]
  rfl

variable [Fmt] {m : Model} {B : Backend m} {qs : QuerySet m.info} {db : Tables Cell} {w : World B.cache} {r : Row Cell}

/-- A query set finds one row, and the model reads it. -/
def Found (B : Backend m) (qs : QuerySet m.info) (db : Tables Cell) : Prop :=
  ∃ r x, (db m.info.tableName).filter (qs.keeps B.server db) = [r] ∧ B.fromRow r = .ok x

theorem getOne_isOk (windowless : Windowless qs) :
    (∃ x, getOne B.server db B.fromRow qs = .ok x) ↔ Found B qs db := by
  have hfetch : B.server.fetch db ((qs.withLimit 2).select B.server.dialect) = .ok ((B.server.arrange
      ((qs.withLimit 2).orderSource true) ((db m.info.tableName).filter (qs.keeps B.server db))).take 2) := by
    have hsearch : (qs.withLimit 2).searchCondition = none := windowless.search
    have hoffset : (qs.withLimit 2).offset = none := windowless.offset
    rw [fetch_eq hsearch, hoffset]
    rfl
  have hperm := B.server.arrange_perm ((qs.withLimit 2).orderSource true)
    ((db m.info.tableName).filter (qs.keeps B.server db))
  have hrows : all B.server db (instances m B.fromRow) (qs.withLimit 2) =
      ((B.server.arrange ((qs.withLimit 2).orderSource true)
        ((db m.info.tableName).filter (qs.keeps B.server db))).take 2).mapM B.fromRow := by
    rw [all, hfetch]
    rfl
  rw [getOne, hrows]
  generalize B.server.arrange ((qs.withLimit 2).orderSource true)
    ((db m.info.tableName).filter (qs.keeps B.server db)) = rows at hperm
  constructor
  · rintro ⟨x, hx⟩
    obtain ⟨items, hitems, hx⟩ := Except.bind_eq_ok.mp hx
    have hforall := Except.mapM_eq_ok.mp hitems
    cases rows with
    | nil =>
      cases hforall
      cases hx
    | cons row rows =>
      cases rows with
      | nil =>
        obtain _ | ⟨hrow, hnil⟩ := hforall
        exact ⟨row, _, List.perm_singleton.mp hperm.symm, hrow⟩
      | cons other rows =>
        obtain _ | ⟨-, _ | ⟨-, -⟩⟩ := hforall
        cases hx
  · rintro ⟨row, x, hfilter, hx⟩
    rw [hfilter, List.perm_singleton] at hperm
    subst hperm
    refine ⟨x, Except.bind_eq_ok.mpr ⟨[x], ?_, rfl⟩⟩
    rw [List.take_succ_cons, List.take_nil, List.mapM_cons, hx]
    rfl

/-- The handler has answered with the row that it has written. -/
def Succeeded (reply : Except Failure Reply) : Prop := ∃ body, reply = .ok (.record 200 body)

/-- What a handler does that writes a row if its statement goes through, and then reads it. -/
structure Writes (B : Backend m) (qs : QuerySet m.info) (goes : Prop) (db after : Tables Cell)
    (result : World B.cache × Except Failure Reply) : Prop where
  through : goes → result.1.tables = after ∧ (Succeeded result.2 ↔ Found B qs after)
  refused : ¬goes → result.1.tables = db ∧ ¬Succeeded result.2

theorem Writes.of_failed {goes : Prop} {db after : Tables Cell} {result : World B.cache × Except Failure Reply}
    (hnot : ¬goes) (htables : result.1.tables = db) (hreply : ¬Succeeded result.2) : Writes B qs goes db after result :=
  ⟨fun hgoes => absurd hgoes hnot, fun _ => ⟨htables, hreply⟩⟩

theorem Writes.of_iff {goes goes' : Prop} {db after : Tables Cell} {result : World B.cache × Except Failure Reply}
    (writes : Writes B qs goes db after result) (h : goes' ↔ goes) : Writes B qs goes' db after result :=
  ⟨fun hgoes => writes.through (h.mp hgoes), fun hnot => writes.refused fun hgoes => hnot (h.mpr hgoes)⟩

/-- What the handlers do with the values that they have read. -/
def writeRow (render : m.Instance → Json F64) (qs : QuerySet m.info) (values : List (String × Value)) : Action m Reply := do
  let updatedRows ← ask (.update qs (literals values))
  let updatedRows : Nat ← orFail (internal updatedRows)
  if updatedRows = 0 then fail .notFound else ViewSet.fetchWritten render 200 qs

/-- An `UPDATE` of values goes through: there are some, they have columns, and the server takes them. -/
structure TakesValues (B : Backend m) (qs : QuerySet m.info) (db : Tables Cell) (r : Row Cell)
    (values : List (String × Value)) : Prop where
  nonempty : values ≠ []
  columns : ∀ value ∈ values, column m.info value.1 ∈ m.info.columns
  taken : B.server.refuses db (replaced B.server db qs (r.setAll (storedCells m.info values))) = none

theorem eval_ask (call : ViewCall m) (f : call.Answer → Action m Reply) :
    (ask call >>= f).eval (execTable B) w = (f (execTable B call w).2).eval (execTable B) (execTable B call w).1 := rfl

theorem eval_fetchWritten (windowless : Windowless qs) (render : m.Instance → Json F64) :
    ((ViewSet.fetchWritten render 200 qs).eval (execTable B) w).1.tables = w.tables ∧
      (Succeeded ((ViewSet.fetchWritten render 200 qs).eval (execTable B) w).2 ↔ Found B qs w.tables) := by
  rw [← getOne_isOk windowless, ViewSet.fetchWritten, eval_ask]
  have hanswer : (execTable B (.get qs) w).2 = getOne B.server w.tables B.fromRow qs := rfl
  rw [hanswer]
  cases getOne B.server w.tables B.fromRow qs with
  | error e =>
    refine ⟨rfl, ?_, ?_⟩
    · rintro ⟨body, h⟩
      cases h
    · rintro ⟨x, h⟩
      cases h
  | ok x => exact ⟨rfl, fun _ => ⟨x, rfl⟩, fun _ => ⟨render x, rfl⟩⟩

/-- An `UPDATE` that is answered with an error ends the handler. -/
theorem eval_writeRow_error {values : List (String × Value)} {render : m.Instance → Json F64} {e : OrmError}
    (h : (execTable B (.update qs (literals values)) w).2 = .error e) :
    (writeRow render qs values).eval (execTable B) w =
      ((execTable B (.update qs (literals values)) w).1, .error (.error (.internal (ormMessage e).toList))) := by
  rw [writeRow, eval_ask, h]
  rfl

theorem writeRow_writes (windowless : Windowless qs) (selected : (w.tables m.info.tableName).filter
    (qs.keeps B.server w.tables) = [r]) {values : List (String × Value)} (members : ∀ value ∈ values, Member m.info value.1)
    (render : m.Instance → Json F64) : Writes B qs (TakesValues B qs w.tables r values) w.tables
      (replaced B.server w.tables qs (r.setAll (storedCells m.info values)))
      ((writeRow render qs values).eval (execTable B) w) := by
  have hfailed {w' : World B.cache} {e : Failure} (h : w'.tables = w.tables) (hnot : ¬TakesValues B qs w.tables r values) :
      Writes B qs (TakesValues B qs w.tables r values) w.tables
        (replaced B.server w.tables qs (r.setAll (storedCells m.info values))) (w', .error e) := by
    refine ⟨fun hgoes => absurd hgoes hnot, fun _ => ⟨h, ?_⟩⟩
    rintro ⟨body, hbody⟩
    cases hbody
  by_cases hcolumns : ∀ value ∈ values, column m.info value.1 ∈ m.info.columns
  · have hexec : execTable B (.update qs (literals values)) w = exec B (.update qs (literals values)) w := by
      refine if_pos (List.all_eq_true.mpr fun set hset => ?_)
      obtain ⟨value, hvalue, rfl⟩ := List.mem_map.mp hset
      exact decide_eq_true (hcolumns value hvalue)
    have hrun : exec B (.update qs (literals values)) w =
        (w.ran (runUpdate B.server w.tables qs (literals values)).1, (runUpdate B.server w.tables qs (literals values)).2) := rfl
    have hupdate := runUpdate_eq members selected
    by_cases hvalues : values = []
    · have hanswer : runUpdate B.server w.tables qs (literals values) = (w.tables, .error Server.syntaxError) := by
        rw [runUpdate, hupdate, if_pos hvalues]
        rfl
      rw [eval_writeRow_error (by rw [hexec, hrun, hanswer]), hexec, hrun, hanswer]
      exact hfailed rfl fun htakes => htakes.nonempty hvalues
    · cases hrefuses : B.server.refuses w.tables (replaced B.server w.tables qs (r.setAll (storedCells m.info values))) with
      | some message =>
        have hanswer : runUpdate B.server w.tables qs (literals values) = (w.tables, .error (.query message)) := by
          rw [runUpdate, hupdate, if_neg hvalues, commit_refused hrefuses]
          rfl
        rw [eval_writeRow_error (by rw [hexec, hrun, hanswer]), hexec, hrun, hanswer]
        exact hfailed rfl fun htakes => by
          have htaken := htakes.taken
          rw [hrefuses] at htaken
          cases htaken
      | none =>
        have hanswer : runUpdate B.server w.tables qs (literals values) =
            (replaced B.server w.tables qs (r.setAll (storedCells m.info values)), .ok 1) := by
          rw [runUpdate, hupdate, if_neg hvalues, commit_taken hrefuses]
          rfl
        have heval : (writeRow render qs values).eval (execTable B) w = (ViewSet.fetchWritten render 200 qs).eval (execTable B)
            (w.ran (replaced B.server w.tables qs (r.setAll (storedCells m.info values)))) := by
          rw [writeRow, eval_ask, hexec, hrun, hanswer]
          rfl
        rw [heval]
        have hfetch := @eval_fetchWritten _ m B qs
          (w.ran (replaced B.server w.tables qs (r.setAll (storedCells m.info values)))) windowless render
        exact ⟨fun _ => hfetch, fun hnot => absurd ⟨hvalues, hcolumns, hrefuses⟩ hnot⟩
  · have hexec : execTable B (.update qs (literals values)) w =
        (w.ran w.tables, .error (.query "column does not exist")) := by
      refine if_neg fun hall => hcolumns fun value hvalue => ?_
      exact of_decide_eq_true (List.all_eq_true.mp hall (value.1, .literal value.2) (List.mem_map_of_mem hvalue))
    rw [eval_writeRow_error (by rw [hexec]), hexec]
    exact hfailed rfl fun htakes => hcolumns htakes.columns

/-- The row that the query set of a request finds. -/
structure Stored (B : Backend m) (db : Tables Cell) (qs : QuerySet m.info) (r : Row Cell) : Prop where
  windowless : Windowless qs
  selected : (db m.info.tableName).filter (qs.keeps B.server db) = [r]
  readable : ∃ x, B.fromRow r = .ok x
  filled : Filled m.info r

theorem replaced_inj (stored : Stored B db qs r) {r' r'' : Row Cell}
    (h : replaced B.server db qs r' = replaced B.server db qs r'') : r' = r'' := by
  have hmem : r ∈ (db m.info.tableName).filter (qs.keeps B.server db) := by
    rw [stored.selected]
    exact List.mem_singleton_self r
  obtain ⟨hrow, hkept⟩ := List.mem_filter.mp hmem
  have hrows := congrFun h m.info.tableName
  rw [replaced, replaced, Function.update_self, Function.update_self] at hrows
  have hcell := List.map_inj_left.mp hrows r hrow
  rwa [if_pos hkept, if_pos hkept] at hcell

theorem Stored.found (stored : Stored B db qs r) : Found B qs db := by
  obtain ⟨x, hx⟩ := stored.readable
  exact ⟨r, x, stored.selected, hx⟩

end Handlers

/-! ### Reading the body -/

section Reading

theorem named_iff {entries : List (List Char × Json F64)} {name : String} :
    Named entries name ↔ ∃ entry ∈ entries, String.ofList entry.1 = name := by
  rw [Named, getEntry, ← Option.ne_none_iff_isSome, ne_eq, List.lookup_eq_none_iff]
  constructor
  · intro h
    by_contra hnone
    refine h fun entry hentry => bne_iff_ne.mpr fun heq => hnone ⟨entry, hentry, ?_⟩
    rw [← heq, String.ofList_toList]
  · rintro ⟨entry, hentry, rfl⟩ h
    exact bne_iff_ne.mp (h entry hentry) (String.toList_ofList)

theorem extendField_ne_nil (field : String) (messages : List String) (entries : List (String × List String)) :
    extendField field messages entries ≠ [] := by
  cases entries with
  | nil => exact nofun
  | cons entry entries =>
    rw [extendField]
    split
    · exact nofun
    · split <;> exact nofun

/-- Errors that are added are there. -/
theorem isEmpty_foldl_add {names : List String} {message : String} {errors : ValidationErrors} :
    (names.foldl (fun errors name => errors.add name message) errors).isEmpty = true ↔
      names = [] ∧ errors.isEmpty = true := by
  induction names generalizing errors with
  | nil => simp
  | cons name names ih =>
    rw [List.foldl_cons, ih]
    simp [ValidationErrors.isEmpty, ValidationErrors.add, extendField_ne_nil]

variable {m : ModelMeta} {fields : FieldSet} {entries : List (List Char × Json F64)} {partly : Bool}

/-- What the body names is writable. -/
def Writable (m : ModelMeta) (fields : FieldSet) (entries : List (List Char × Json F64)) : Prop :=
  ∀ name, Member m name → Named entries name → fields.isWritable name = true

theorem writable_all : Writable m {} entries := fun _ _ _ => rfl

/-- A partial body has errors besides those of its values if it names what is closed. -/
theorem bodyErrors_partly :
    (Serializer.bodyErrors m fields (.object entries) true).isEmpty = true ↔ Writable m fields entries := by
  rw [Serializer.bodyErrors]
  simp only [if_true, List.foldl_nil]
  rw [isEmpty_foldl_add, and_iff_left (show ValidationErrors.new.isEmpty = true from rfl), List.filter_eq_nil_iff]
  have hknown (name : String) : (m.fields.any (·.name == name) || m.relations.any (·.fieldName == name)) = true ↔
      Member m name := by
    simp only [Bool.or_eq_true, List.any_eq_true, beq_iff_eq, Member, List.mem_append, List.mem_map]
  constructor
  · intro h name hmember hnamed
    obtain ⟨entry, hentry, rfl⟩ := named_iff.mp hnamed
    have hopen := h _ (List.mem_map_of_mem hentry)
    rw [Bool.and_eq_true, hknown] at hopen
    simpa [hmember] using hopen
  · intro h name hname hclosed
    obtain ⟨entry, hentry, rfl⟩ := List.mem_map.mp hname
    rw [Bool.and_eq_true, hknown] at hclosed
    have hopen := h _ hclosed.1 (named_iff.mpr ⟨entry, hentry, rfl⟩)
    rw [hopen] at hclosed
    cases hclosed.2

variable [Wire]

/-- What is read is the values of the fields that have one. -/
theorem deserialize_eq_readValues : deserializeInner m (.object entries) partly = .ok (readValues m entries partly) ↔
    Taken m entries partly := by
  rw [Taken, ← deserialize_isOk]
  constructor
  · exact fun h => ⟨_, h⟩
  · rintro ⟨values, hvalues⟩
    have hread := (read_ok_iff.mpr (deserialize_eq_ok.mp hvalues)).2
    rw [hvalues, readValues, hread]

theorem deserialize_refused (h : ¬Taken m entries partly) :
    ∃ errors, deserializeInner m (.object entries) partly = .error errors :=
  deserialize_error fun values hvalues => h (deserialize_isOk.mp ⟨values, hvalues⟩)

theorem named_of_partly {value : String × Value} (h : value ∈ readValues m entries true) : Named entries value.1 := by
  rcases mem_readFields.mp (mem_readValues.mp h) with ⟨field, -, -, hread, hname, -⟩ | ⟨relation, -, hread, hname, -⟩
  · exact hname ▸ hread rfl
  · exact hname ▸ hread rfl

/-- A serializer takes a partial body that names only what is writable. -/
theorem parse_partly {m : Model} (writable : Writable m.info fields entries) (taken : Taken m.info entries true) :
    (Serializer.model fields [] : Serializer m).parse (.object entries) true = .ok (readValues m.info entries true) := by
  have hfilter : (readValues m.info entries true).filter (fun value => fields.isWritable value.1) =
      readValues m.info entries true :=
    List.filter_eq_self.mpr fun value hvalue => writable _ (readValues_member hvalue) (named_of_partly hvalue)
  rw [Serializer.parse, Serializer.toInternalValue, deserialize_eq_readValues.mpr taken]
  simp only [bodyErrors_partly.mpr writable, if_true, hfilter]
  rfl

theorem parse_refused {m : Model} (h : ¬(Writable m.info fields entries ∧ Taken m.info entries true)) :
    ∃ errors, (Serializer.model fields [] : Serializer m).parse (.object entries) true = .error errors := by
  rw [Serializer.parse, Serializer.toInternalValue]
  by_cases taken : Taken m.info entries true
  · have hclosed : ¬(Serializer.bodyErrors m.info fields (.object entries) true).isEmpty = true :=
      fun hempty => h ⟨bodyErrors_partly.mp hempty, taken⟩
    rw [deserialize_eq_readValues.mpr taken]
    simp only [if_neg hclosed]
    exact ⟨_, rfl⟩
  · obtain ⟨errors, herrors⟩ := deserialize_refused taken
    rw [herrors]
    exact ⟨_, rfl⟩

end Reading

/-! ### A request to change a row -/

section Requests
variable [Fmt] [Wire] {m : Model} {B : Backend m} {req : ApiRequest} {pkField : FieldMeta} {pk : Int}
  {entries : List (List Char × Json F64)} {fields : FieldSet} {partly : Bool} {qs : QuerySet m.info} {w : World B.cache}
  {r : Row Cell}

/-- A `PATCH` of the row with a key, whose body is an object. -/
structure PatchRequest (m : Model) (req : ApiRequest) (pkField : FieldMeta) (pk : Int)
    (entries : List (List Char × Json F64)) : Prop where
  method : req.method = .patch
  key : pkOf req = .ok pk
  body : req.body = .ok (.object entries)
  primary : primaryKey m = .ok pkField

/-- The statement of a handler goes through: the body names only what is writable, each field that is read has a value, and
    the server takes them. -/
structure Goes (B : Backend m) (db : Tables Cell) (qs : QuerySet m.info) (r : Row Cell) (fields : FieldSet)
    (entries : List (List Char × Json F64)) (partly : Bool) : Prop where
  writable : Writable m.info fields entries
  taken : Taken m.info entries partly
  values : TakesValues B qs db r (readValues m.info entries partly)

theorem view_writes {options : EndpointOptions m} (hserializer : options.serializer = .model fields [])
    (request : PatchRequest m req pkField pk entries) (hqs : withPk {} pkField pk = .ok qs)
    (stored : Stored B w.tables qs r) :
    Writes B qs (Goes B w.tables qs r fields entries true) w.tables
      (replaced B.server w.tables qs (patched m.info entries true r))
      ((ViewSet.update options req).eval (execTable B) w) := by
  have hbody : ViewSet.parseBody options req (req.method = .patch) =
      ((Serializer.model fields [] : Serializer m).parse (.object entries) true).mapError fun _ => ViewSet.validationFailed := by
    rw [ViewSet.parseBody, ViewSet.jsonBody, request.body, hserializer, request.method]
    rfl
  by_cases hread : Writable m.info fields entries ∧ Taken m.info entries true
  · have heval : ViewSet.update options req =
        writeRow options.serializer.toRepresentation qs (readValues m.info entries true) := by
      rw [parse_partly hread.1 hread.2] at hbody
      rw [ViewSet.update, orFail_ok request.key, orFail_ok hbody, orFail_ok request.primary, orFail_ok hqs]
      rfl
    rw [heval]
    refine (writeRow_writes stored.windowless stored.selected (fun _ => readValues_member) _).of_iff ?_
    exact ⟨fun goes => goes.values, fun values => ⟨hread.1, hread.2, values⟩⟩
  · obtain ⟨errors, herrors⟩ := @parse_refused fields entries _ m hread
    have heval : ViewSet.update options req = fail ViewSet.validationFailed := by
      rw [ViewSet.update, orFail_ok request.key, hbody, herrors]
      rfl
    rw [heval]
    refine Writes.of_failed (fun goes => hread ⟨goes.writable, goes.taken⟩) rfl ?_
    rintro ⟨body, hreply⟩
    cases hreply

theorem scoped_writes {scope : Scope m} (request : PatchRequest m req pkField pk entries)
    (hqs : ScopedViewSet.inScope scope pkField pk = .ok qs) (stored : Stored B w.tables qs r) :
    Writes B qs (Goes B w.tables qs r {} entries false) w.tables
      (replaced B.server w.tables qs (patched m.info entries false r))
      ((ScopedViewSet.update scope req).eval (execTable B) w) := by
  have hbody : ScopedViewSet.jsonBody req = .ok (.object entries) := by
    rw [ScopedViewSet.jsonBody, request.body]
    rfl
  by_cases taken : Taken m.info entries false
  · have heval : (ScopedViewSet.update scope req).eval (execTable B) w =
        (writeRow ScopedViewSet.render qs (readValues m.info entries false)).eval (execTable B) w := by
      rw [ScopedViewSet.update, orFail_ok request.key, orFail_ok hbody, deserialize_eq_readValues.mpr taken]
      simp only
      rw [orFail_ok request.primary, orFail_ok hqs]
      simp only [orFail_ok hqs]
      rfl
    rw [heval]
    refine (writeRow_writes stored.windowless stored.selected (fun _ => readValues_member) _).of_iff ?_
    exact ⟨fun goes => goes.values, fun values => ⟨writable_all, taken, values⟩⟩
  · obtain ⟨errors, herrors⟩ := deserialize_refused taken
    have heval : ScopedViewSet.update scope req = pure (.invalid errors) := by
      rw [ScopedViewSet.update, orFail_ok request.key, orFail_ok hbody, herrors]
    rw [heval]
    refine Writes.of_failed (fun goes => taken goes.taken) rfl ?_
    rintro ⟨body, hreply⟩
    cases hreply

/-! ### What a `PATCH` should do -/

/-- A body that names only writable fields, with valid values: the server takes the row that has them, and the model reads
    it. -/
structure Valid (B : Backend m) (db : Tables Cell) (qs : QuerySet m.info) (r : Row Cell) (fields : FieldSet)
    (entries : List (List Char × Json F64)) : Prop where
  names : ∀ entry ∈ entries, Member m.info (String.ofList entry.1) ∧ fields.isWritable (String.ofList entry.1) = true
  fields : ∀ field ∈ m.info.fields, ∀ json, getEntry (.object entries) field.name = some json →
    json = .null ∧ field.nullable = true ∨ ValidFor field.kind json
  relations : ∀ relation ∈ m.info.relations, ∀ json, getEntry (.object entries) relation.fieldName = some json →
    json = .null ∨ ∃ n, json = .int n ∧ InRange n
  taken : ∀ r', SetsOnly m.info entries r r' → B.server.refuses db (replaced B.server db qs r') = none
  readable : ∀ r', SetsOnly m.info entries r r' → ∃ x, B.fromRow r' = .ok x

/-- A `PATCH` fails and changes nothing, or it sets the columns that the body names to what it gives, and no others; and a
    valid body does not fail. -/
structure Obeys (B : Backend m) (db : Tables Cell) (qs : QuerySet m.info) (r : Row Cell) (fields : FieldSet)
    (entries : List (List Char × Json F64)) (result : World B.cache × Except Failure Reply) : Prop where
  failed : ¬Succeeded result.2 → result.1.tables = db
  patched : Succeeded result.2 → ∃ r', SetsOnly m.info entries r r' ∧ result.1.tables = replaced B.server db qs r'
  valid : Valid B db qs r fields entries → Succeeded result.2

/-- A valid body gives enough, and nothing that cannot be written: it names a field besides the auto fields, no value of a
    kind that is not supported and no link to many rows; and as a whole body it has what the model requires. -/
structure Enough (m : ModelMeta) (entries : List (List Char × Json F64)) (partly : Bool) : Prop where
  nonempty : (∃ field ∈ m.fields, field.auto = false ∧ (partly = true → Named entries field.name)) ∨
    ∃ relation ∈ m.relations, partly = true → Named entries relation.fieldName
  kinds : ∀ field ∈ m.fields, field.auto = false → Unsupported field.kind →
    ∀ json, getEntry (.object entries) field.name = some json → json = .null
  columns : ∀ relation ∈ m.relations, relation.kind = .manyToMany → partly = true ∧ ¬Named entries relation.fieldName
  required : partly = false → ∀ field ∈ m.fields, field.auto = false → field.nullable = false → field.kind ≠ .boolean →
    Named entries field.name

variable {db : Tables Cell}

theorem Valid.field_isOk {field : FieldMeta} (valid : Valid B db qs r fields entries) (hfield : field ∈ m.info.fields)
    {json : Json F64} (hjson : getEntry (.object entries) field.name = some json) :
    (∃ v, readField field (some json) = .ok v) ↔ (Unsupported field.kind → json = .null) := by
  rcases valid.fields field hfield json hjson with ⟨rfl, hnull⟩ | hvalid
  · exact ⟨fun _ _ => rfl, fun _ => ⟨.null, readField_null hnull⟩⟩
  · constructor
    · rintro ⟨v, hv⟩ unsupported
      obtain ⟨e, he⟩ := readField_unsupported unsupported hvalid.ne_null
      rw [hv] at he
      cases he
    · exact fun h => readField_valid hvalid fun unsupported => hvalid.ne_null (h unsupported)

theorem Valid.relation_isOk (valid : Valid B db qs r fields entries) {relation : RelationMeta}
    (hrelation : relation ∈ m.info.relations) :
    ∃ v, readRelation relation (getEntry (.object entries) relation.fieldName) = .ok v := by
  cases hjson : getEntry (.object entries) relation.fieldName with
  | none => exact ⟨.null, by rw [readRelation]⟩
  | some json =>
    rcases valid.relations relation hrelation json hjson with rfl | ⟨n, rfl, range⟩
    · exact ⟨.null, by rw [readRelation]⟩
    · exact ⟨.i64 n, readRelation_int range⟩

theorem Valid.writable (valid : Valid B db qs r fields entries) : Writable m.info fields entries := by
  intro name _ hnamed
  obtain ⟨entry, hentry, rfl⟩ := named_iff.mp hnamed
  exact (valid.names entry hentry).2

/-- A valid body is read, and its values have columns, if it is enough. -/
theorem Valid.enough_iff (valid : Valid B db qs r fields entries) (named : WellNamed m.info) :
    Enough m.info entries partly ↔
      Taken m.info entries partly ∧ HaveColumns m.info entries partly ∧ readValues m.info entries partly ≠ [] := by
  have hrelation {relation : RelationMeta} (h : relation ∈ m.info.relations)
      (hread : partly = true → Named entries relation.fieldName) :
      ∃ v, (relation.fieldName, v) ∈ readValues m.info entries partly := by
    obtain ⟨v, hv⟩ := valid.relation_isOk h
    exact ⟨v, (lookup_relation named.names h hread hv).1⟩
  constructor
  · intro enough
    have taken : Taken m.info entries partly := by
      rintro ⟨name, result⟩ hresult
      rcases mem_readFields.mp hresult with ⟨field, hfield, hauto, hread, rfl, rfl⟩ | ⟨relation, h, -, rfl, rfl⟩
      · cases hjson : getEntry (.object entries) field.name with
        | none =>
          refine readField_absent.mpr ?_
          by_contra hnot
          obtain ⟨hnull, hkind⟩ := not_or.mp hnot
          have hwhole : partly = false := Bool.eq_false_iff.mpr fun hpartly => by
            have hnamed := hread hpartly
            rw [hjson] at hnamed
            cases hnamed
          have hnamed := enough.required hwhole field hfield hauto (Bool.eq_false_iff.mpr hnull) hkind
          rw [Named, hjson] at hnamed
          cases hnamed
        | some json =>
          exact (valid.field_isOk hfield hjson).mpr fun unsupported => enough.kinds field hfield hauto unsupported json hjson
      · exact valid.relation_isOk h
    refine ⟨taken, fun value hvalue => ?_, ?_⟩
    · rcases mem_readFields.mp (mem_readValues.mp hvalue) with
        ⟨field, hfield, -, -, hname, -⟩ | ⟨relation, h, hread, hname, -⟩
      · exact hname ▸ column_mem_field named.names hfield
      · rw [← hname]
        refine (named.column_mem_relation h).mpr fun hkind => ?_
        obtain ⟨hpartly, hunnamed⟩ := enough.columns relation h hkind
        exact hunnamed (hread hpartly)
    · rcases enough.nonempty with ⟨field, hfield, hauto, hread⟩ | ⟨relation, h, hread⟩
      · obtain ⟨v, hv⟩ := taken.field hfield hauto hread
        exact List.ne_nil_of_mem (lookup_field named.names hfield hauto hread hv).1
      · obtain ⟨v, hv⟩ := hrelation h hread
        exact List.ne_nil_of_mem hv
  · rintro ⟨taken, columns, hvalues⟩
    refine ⟨?_, fun field hfield hauto unsupported json hjson => ?_, fun relation h hkind => ?_,
      fun hwhole field hfield hauto hnull hkind => ?_⟩
    · obtain ⟨value, hvalue⟩ := List.exists_mem_of_ne_nil _ hvalues
      rcases mem_readFields.mp (mem_readValues.mp hvalue) with ⟨field, hfield, hauto, hread, -⟩ | ⟨relation, h, hread, -⟩
      · exact .inl ⟨field, hfield, hauto, hread⟩
      · exact .inr ⟨relation, h, hread⟩
    · have hnamed : Named entries field.name := by rw [Named, hjson]; rfl
      obtain ⟨v, hv⟩ := taken.field hfield hauto fun _ => hnamed
      exact (valid.field_isOk hfield hjson).mp ⟨v, hjson ▸ hv⟩ unsupported
    · have hunread : ¬(partly = true → Named entries relation.fieldName) := fun hread => by
        obtain ⟨v, hv⟩ := hrelation h hread
        exact (named.column_mem_relation h).mp (columns _ hv) hkind
      exact Classical.not_imp.mp hunread
    · obtain ⟨v, hv⟩ := taken.field hfield hauto fun hpartly => absurd (hwhole.symm.trans hpartly) Bool.false_ne_true
      by_contra hunnamed
      rw [Named, Bool.not_eq_true, Option.isSome_eq_false_iff, Option.isNone_iff_eq_none] at hunnamed
      rw [hunnamed] at hv
      rcases readField_absent.mp ⟨v, hv⟩ with h | h
      · rw [hnull] at h
        cases h
      · exact hkind h

/-- What a handler writes besides what the body gives is there already, and the row that it has written is found again; and
    a valid body is enough. -/
structure Safe (B : Backend m) (db : Tables Cell) (qs : QuerySet m.info) (r : Row Cell) (fields : FieldSet)
    (entries : List (List Char × Json F64)) (partly : Bool) : Prop where
  goes : Goes B db qs r fields entries partly → Untouched m.info entries partly r ∧
    Found B qs (replaced B.server db qs (patched m.info entries partly r))
  valid : Valid B db qs r fields entries → Enough m.info entries partly ∧ Untouched m.info entries partly r

/-- When a handler obeys that writes what it reads of the body. -/
theorem obeys_iff (named : WellNamed m.info) (stored : Stored B db qs r) {result : World B.cache × Except Failure Reply}
    (writes : Writes B qs (Goes B db qs r fields entries partly) db
      (replaced B.server db qs (patched m.info entries partly r)) result) :
    Obeys B db qs r fields entries result ↔ Safe B db qs r fields entries partly := by
  have hsets (taken : Taken m.info entries partly) (columns : HaveColumns m.info entries partly) :=
    setsOnly_iff named stored.filled taken columns
  constructor
  · intro obeys
    have hgoes (goes : Goes B db qs r fields entries partly) : Untouched m.info entries partly r ∧
        Found B qs (replaced B.server db qs (patched m.info entries partly r)) := by
      obtain ⟨htables, hsucceeded⟩ := writes.through goes
      have hreply : Succeeded result.2 := by
        by_contra hfailed
        -- The row is as it was, and so it would have been found.
        have hsame := htables.symm.trans (obeys.failed hfailed)
        refine hfailed (hsucceeded.mpr ?_)
        rw [hsame]
        exact stored.found
      obtain ⟨r', hr', hreplaced⟩ := obeys.patched hreply
      have hrow := replaced_inj stored (htables.symm.trans hreplaced)
      exact ⟨(hsets goes.taken goes.values.columns).mp (hrow ▸ hr'), hsucceeded.mp hreply⟩
    refine ⟨hgoes, fun valid => ?_⟩
    have goes : Goes B db qs r fields entries partly := by
      by_contra hnot
      exact (writes.refused hnot).2 (obeys.valid valid)
    exact ⟨(valid.enough_iff named).mpr ⟨goes.taken, goes.values.columns, goes.values.nonempty⟩, (hgoes goes).1⟩
  · rintro ⟨hgoes, hvalid⟩
    refine ⟨fun hfailed => ?_, fun hreply => ?_, fun valid => ?_⟩
    · by_cases goes : Goes B db qs r fields entries partly
      · exact absurd ((writes.through goes).2.mpr (hgoes goes).2) hfailed
      · exact (writes.refused goes).1
    · have goes : Goes B db qs r fields entries partly := by
        by_contra hnot
        exact (writes.refused hnot).2 hreply
      exact ⟨_, (hsets goes.taken goes.values.columns).mpr (hgoes goes).1, (writes.through goes).1⟩
    · obtain ⟨enough, untouched⟩ := hvalid valid
      obtain ⟨taken, columns, hvalues⟩ := (valid.enough_iff named).mp enough
      have goes : Goes B db qs r fields entries partly :=
        ⟨valid.writable, taken, hvalues, columns, valid.taken _ ((hsets taken columns).mpr untouched)⟩
      exact (writes.through goes).2.mpr (hgoes goes).2

/-- When the handlers of `PATCH` obey. `update_with_options`, behind its throttle, reads what the body names, and the scoped
    `update` a whole body. -/
theorem patch_obeys_iff (named : WellNamed m.info) (request : PatchRequest m req pkField pk entries) :
    (∀ (options : EndpointOptions m) (fields : FieldSet) (qs : QuerySet m.info) (r : Row Cell),
      options.serializer = .model fields [] → withPk {} pkField pk = .ok qs → Stored B w.tables qs r →
      (Obeys B w.tables qs r fields entries ((ViewSet.update options req).eval (execTable B) w) ↔
        Safe B w.tables qs r fields entries true)) ∧
    ∀ (scope : Scope m) (qs : QuerySet m.info) (r : Row Cell),
      ScopedViewSet.inScope scope pkField pk = .ok qs → Stored B w.tables qs r →
      (Obeys B w.tables qs r {} entries ((ScopedViewSet.update scope req).eval (execTable B) w) ↔
        Safe B w.tables qs r {} entries false) := by
  constructor
  · intro options fields qs r hserializer hqs stored
    exact obeys_iff named stored (view_writes hserializer request hqs stored)
  · intro scope qs r hqs stored
    exact obeys_iff named stored (scoped_writes request hqs stored)

end Requests

/-! ### A thing to do -/

section Todo
attribute [local instance] Wire.epoch Fmt.decimal

def todoMeta : ModelMeta where
  structName := "Todo"
  appLabel := "tasks"
  tableName := "tasks_todo"
  fields := [
    { name := "id", columnName := "id", kind := .bigInt, primaryKey := true, auto := true },
    { name := "title", columnName := "title", kind := .text },
    { name := "done", columnName := "done", kind := .boolean }]

def todoModel : Model :=
  ⟨todoMeta, Int × String × Bool, fun (id, title, done) => [("id", .i64 id), ("title", .text title), ("done", .bool done)]⟩

def readTodo (row : Row Cell) : Except OrmError (Int × String × Bool) :=
  match row.lookup "id", row.lookup "title", row.lookup "done" with
  | some (.i64 id), some (.text title), some (.bool done) => .ok (id, title, done)
  | _, _, _ => .error (.query "no column found")

def noCache : CacheBackend where
  State := Unit
  get _ _ s := (s, .ok none)
  set _ _ _ _ s := (s, .ok ())
  entry _ _ _ := none

def todoBackend : Backend todoModel := ⟨plainServer, readTodo, fun _ _ => none, fun _ _ => none, noCache⟩

def milk : Row Cell := [("id", .i64 1), ("title", .text "milk"), ("done", .bool true)]

def oneTodo : World noCache where
  tables := fun t => if t = "tasks_todo" then [milk] else []
  cache := ()
  nanos := 0
  accesses := []
  counted := []

def patchTodo (entries : List (List Char × Json F64)) : ApiRequest where
  method := .patch
  headers := []
  query := ⟨id, none⟩
  sessionUser := none
  pk := some ['1']
  body := .ok (.object entries)

def todoKey : FieldMeta := { name := "id", columnName := "id", kind := .bigInt, primaryKey := true, auto := true }

def firstTodo : QuerySet todoModel.info := { filters := [.and [.compare "id" .eq (.i64 1)]] }

def tea : List (List Char × Json F64) := [("title".toList, .string "tea".toList)]

theorem todo_wellNamed : WellNamed todoMeta := by
  constructor
  · rw [NamesDiffer]
    decide
  · decide

theorem patchTodo_request (entries : List (List Char × Json F64)) : PatchRequest todoModel (patchTodo entries) todoKey 1 entries :=
  ⟨rfl, rfl, rfl, rfl⟩

theorem milk_stored : Stored todoBackend oneTodo.tables firstTodo milk where
  windowless := ⟨rfl, rfl, rfl⟩
  selected := rfl
  readable := ⟨_, rfl⟩
  filled c hc := by
    have hcolumns : todoModel.info.columns = ["id", "title", "done"] := rfl
    rw [hcolumns, List.mem_cons, List.mem_cons, List.mem_singleton] at hc
    rcases hc with rfl | rfl | rfl <;> exact ⟨_, rfl⟩

/-- A title is set, and nothing else. -/
theorem tea_obeys : Obeys todoBackend oneTodo.tables firstTodo milk {} tea
    ((ViewSet.update ({} : EndpointOptions todoModel) (patchTodo tea)).eval (execTable todoBackend) oneTodo) := by
  refine ((patch_obeys_iff todo_wellNamed (patchTodo_request tea)).1 {} {} firstTodo milk rfl rfl milk_stored).mpr ?_
  have untouched : Untouched todoMeta tea true milk := by
    refine ⟨fun field hfield hauto json hjson => ?_, nofun, nofun⟩
    simp only [todoMeta, List.mem_cons, List.not_mem_nil, or_false] at hfield
    rcases hfield with rfl | rfl | rfl
    · cases hjson
    · cases hauto
    · cases hauto
  refine ⟨fun _ => ⟨untouched, _, _, rfl, rfl⟩, fun _ =>
    ⟨⟨.inl ⟨_, .tail _ (.head _), rfl, fun _ => rfl⟩, ?_, nofun, nofun⟩, untouched⟩⟩
  intro field hfield hauto unsupported
  simp only [todoModel, todoMeta, List.mem_cons, List.not_mem_nil, or_false] at hfield
  rcases hfield with rfl | rfl | rfl <;> exact unsupported.elim

/-- An empty `PATCH` is an error of the server, and a scoped one of a title makes what is done undone. -/
theorem patches_fail :
    ¬Obeys todoBackend oneTodo.tables firstTodo milk {} []
      ((ViewSet.update ({} : EndpointOptions todoModel) (patchTodo [])).eval (execTable todoBackend) oneTodo) ∧
    ¬Obeys todoBackend oneTodo.tables firstTodo milk {} tea
      ((ScopedViewSet.update (m := todoModel) .ok (patchTodo tea)).eval (execTable todoBackend) oneTodo) := by
  constructor
  · intro obeys
    have valid : Valid todoBackend oneTodo.tables firstTodo milk {} [] := by
      refine ⟨fun entry hentry => absurd hentry List.not_mem_nil,
        fun field _ json hjson => (Option.some_ne_none _ hjson.symm).elim,
        fun relation hrelation => absurd hrelation List.not_mem_nil, fun _ _ => rfl,
        fun r' sets => ⟨(1, "milk", true), ?_⟩⟩
      have hsame (c : String) : r'.lookup c = milk.lookup c :=
        sets.others c fun name _ hnamed => absurd hnamed Bool.false_ne_true
      show readTodo r' = _
      rw [readTodo, hsame, hsame, hsame]
      rfl
    have writes : Writes todoBackend firstTodo _ _ _ _ := @view_writes .decimal _ _ todoBackend _ _ _ _ {} firstTodo oneTodo milk
      ({} : EndpointOptions todoModel) rfl (patchTodo_request []) rfl milk_stored
    exact (writes.refused fun goes => goes.values.nonempty rfl).2 (obeys.valid valid)
  · intro obeys
    have hread : readFields todoMeta (.object tea) false = [("title", .ok (.text "tea")), ("done", .ok (.bool false))] := rfl
    have goes : Goes todoBackend oneTodo.tables firstTodo milk {} tea false := by
      refine ⟨writable_all, ?_, nofun, fun value hvalue => ?_, rfl⟩
      · intro result hresult
        have hmem : result ∈ readFields todoMeta (.object tea) false := hresult
        rw [hread, List.mem_cons, List.mem_singleton] at hmem
        rcases hmem with rfl | rfl <;> exact ⟨_, rfl⟩
      · have hmem : value ∈ [("title", Value.text "tea"), ("done", Value.bool false)] := hvalue
        rw [List.mem_cons, List.mem_singleton] at hmem
        rcases hmem with rfl | rfl
        · exact .tail _ (.head _)
        · exact .tail _ (.tail _ (.head _))
    have writes : Writes todoBackend firstTodo _ _ _ _ := @scoped_writes .decimal _ _ todoBackend _ _ _ _ firstTodo oneTodo milk
      .ok (patchTodo_request tea) rfl milk_stored
    obtain ⟨hafter, hsucceeded⟩ := writes.through goes
    obtain ⟨r', sets, htables⟩ := obeys.patched (hsucceeded.mpr ⟨_, _, rfl, rfl⟩)
    have hdone : r'.lookup "done" = some (.bool true) := by
      refine sets.others "done" fun name hmember hnamed hcolumn => ?_
      have hname : name = "done" := todo_wellNamed.column_inj hmember (.tail _ (.tail _ (.head _))) hcolumn
      subst hname
      cases hnamed
    obtain rfl := replaced_inj milk_stored (hafter.symm.trans htables)
    cases hdone

end Todo

end Djangors.Rest
