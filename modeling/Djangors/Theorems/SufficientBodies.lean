import Djangors.Theorems.WireValues

/-! # Bodies that give what is writable

A serializer asks twice for the fields of a body: `to_internal_value` for those that its field set lets be written, and
`deserialize` for all that the model has. A body with the first only is refused when the second are more. -/

namespace Djangors.Rest
open Db Orm

/-! ### Fields that are not given -/

section Fields
variable [Wire] {m : ModelMeta} {field : FieldMeta}

theorem readField_absent : (∃ v, readField field none = .ok v) ↔ field.nullable = true ∨ field.kind = .boolean := by
  by_cases hkind : field.kind = .boolean
  · simp [readField, hkind, readBool]
  · cases hnull : field.nullable <;> simp [readField, hkind, hnull]

/-- The values of a kind in a body. Of the kinds that are not supported, all that are not null. -/
inductive ValidFor : FieldKind → Json F64 → Prop
  | text {kind : FieldKind} (h : Textual kind) (s : List Char) : ValidFor kind (.string s)
  | int {kind : FieldKind} {n : Int} (h : Whole kind) (range : InRange n) : ValidFor kind (.int n)
  | float (x : F64) : ValidFor .float (.float x)
  | whole (n : Int) : ValidFor .float (.int n)
  | bool (b : Bool) : ValidFor .boolean (.bool b)
  | dateTime {s : List Char} {t : DateTime}
      (h : (Parse.rfc3339 (String.ofList s)).or (Parse.naive (String.ofList s)) = some t) : ValidFor .dateTime (.string s)
  | other {kind : FieldKind} {json : Json F64} (h : Unsupported kind) (given : json ≠ .null) : ValidFor kind json

theorem ValidFor.ne_null {kind : FieldKind} {json : Json F64} (h : ValidFor kind json) : json ≠ .null := by
  cases h with
  | other h given => exact given
  | _ => exact nofun

theorem readField_valid {json : Json F64} (h : ValidFor field.kind json) (supported : ¬Unsupported field.kind) :
    ∃ v, readField field (some json) = .ok v := by
  generalize hkind : field.kind = kind at h
  cases h with
  | text h s =>
    have hread := readField_text (hkind ▸ h : Textual field.kind) (String.ofList s)
    rw [String.toList_ofList] at hread
    exact ⟨_, hread⟩
  | int h range => exact ⟨_, readField_int (hkind ▸ h) range⟩
  | float x => exact ⟨.f64 x, by simp [readField, hkind, asF64]⟩
  | whole n => exact ⟨.f64 (Wire.f64OfInt n), by simp [readField, hkind, asF64]⟩
  | bool b => exact ⟨.bool b, by simp [readField, hkind, readBool]⟩
  | @dateTime s t h => exact ⟨.dateTime t, by simp [readField, hkind, asStr, h]⟩
  | other h given => exact absurd (hkind ▸ h) supported

/-- A body of which each field can be read is taken, with a value for each field that is read. -/
theorem deserialize_isOk {entries : List (List Char × Json F64)} {partly : Bool} :
    (∃ values, deserializeInner m (.object entries) partly = .ok values) ↔
      ∀ result ∈ readFields m (.object entries) partly, ∃ v, result.2 = .ok v := by
  constructor
  · rintro ⟨values, hok⟩ result hresult
    rw [deserialize_eq_ok.mp hok] at hresult
    obtain ⟨value, -, rfl⟩ := List.mem_map.mp hresult
    exact ⟨value.2, rfl⟩
  · intro h
    refine ⟨_, deserialize_eq_ok.mpr (read_ok_iff.mp ⟨?_, rfl⟩)⟩
    refine List.filterMap_eq_nil_iff.mpr fun result hresult => ?_
    obtain ⟨v, hv⟩ := h result hresult
    obtain ⟨name, outcome⟩ := result
    cases hv
    rfl

theorem mem_deserialized {entries : List (List Char × Json F64)} {partly : Bool} {values : List (String × Value)}
    (h : deserializeInner m (.object entries) partly = .ok values) {value : String × Value} :
    value ∈ values ↔ (value.1, .ok value.2) ∈ readFields m (.object entries) partly := by
  rw [deserialize_eq_ok.mp h, List.mem_map]
  constructor
  · exact fun hvalue => ⟨value, hvalue, rfl⟩
  · rintro ⟨other, hother, heq⟩
    rw [Prod.mk.injEq, Except.ok.injEq] at heq
    exact Prod.ext heq.1 heq.2 ▸ hother

end Fields

/-! ### Bodies -/

/-- The names of the columns of the model's table. -/
def columnNames (m : ModelMeta) : List String :=
  m.fields.map (·.name) ++ (m.relations.filter hasColumn).map (·.fieldName)

section Bodies
variable [Wire] (m : ModelMeta) (fields : FieldSet) (entries : List (List Char × Json F64))

/-- A body that has a value for each field that is writable and required and for each writable relation, perhaps one for
    others that are writable, and nothing else. -/
structure Sufficient : Prop where
  writable : ∀ entry ∈ entries, fields.isWritable (String.ofList entry.1) = true
  member : ∀ entry ∈ entries, (∃ field ∈ m.fields, field.auto = false ∧ field.name = String.ofList entry.1) ∨
    ∃ relation ∈ m.relations, relation.fieldName = String.ofList entry.1
  required : ∀ field ∈ m.fields, field.auto = false → field.nullable = false → fields.isWritable field.name = true →
    ∃ json, getEntry (.object entries) field.name = some json ∧ ValidFor field.kind json
  nullable : ∀ field ∈ m.fields, field.auto = false → field.nullable = true → fields.isWritable field.name = true →
    ∀ json, getEntry (.object entries) field.name = some json → json = .null ∨ ValidFor field.kind json
  relations : ∀ relation ∈ m.relations, fields.isWritable relation.fieldName = true →
    ∃ n, getEntry (.object entries) relation.fieldName = some (.int n) ∧ InRange n

/-- The serializer takes a body, and what it takes are values of columns. -/
def Accepted (m : Model) (fields : FieldSet) (validators : List Validator) (entries : List (List Char × Json F64)) : Prop :=
  ∃ values, (Serializer.model fields validators : Serializer m).toInternalValue (.object entries) false = .ok values ∧
    ∀ value ∈ values, value.1 ∈ columnNames m.info

/-- What is closed to clients can be left out, what is open has a column, and no kind is given that is not supported. -/
structure Served : Prop where
  closed : ∀ field ∈ m.fields, field.auto = false → field.nullable = false → field.kind ≠ .boolean →
    fields.isWritable field.name = true
  columns : ∀ relation ∈ m.relations, relation.kind = .manyToMany → fields.isWritable relation.fieldName = false
  kinds : ∀ field ∈ m.fields, field.auto = false → Unsupported field.kind →
    ∀ json, getEntry (.object entries) field.name = some json → json = .null

end Bodies

section Acceptance
variable [Wire] {m : ModelMeta} {fields : FieldSet} {entries : List (List Char × Json F64)}

/-- A name that is closed is not in the body. -/
theorem Sufficient.closed_absent (sufficient : Sufficient m fields entries) {name : String}
    (h : fields.isWritable name = false) : getEntry (.object entries) name = none := by
  rw [getEntry, List.lookup_eq_none_iff]
  intro entry hentry
  refine bne_iff_ne.mpr fun heq => ?_
  have hwritable := sufficient.writable entry hentry
  rw [← heq, String.ofList_toList, h] at hwritable
  cases hwritable

/-- A body that suffices has no errors besides those of its values. -/
theorem Sufficient.bodyErrors (sufficient : Sufficient m fields entries) :
    Serializer.bodyErrors m fields (.object entries) false = .new := by
  have hclosed (known : String → Bool) : (entries.map fun entry => String.ofList entry.1).filter
      (fun name => known name && !fields.isWritable name) = [] := by
    refine List.filter_eq_nil_iff.mpr fun name hname => ?_
    obtain ⟨entry, hentry, rfl⟩ := List.mem_map.mp hname
    simp [sufficient.writable entry hentry]
  have hsupplied {supplied : String → Bool} (h : ∀ name json, getEntry (.object entries) name = some json → json ≠ .null →
      supplied name = true) : ((m.fields.filter fun field =>
        !(field.auto || field.primaryKey || field.nullable || !fields.isWritable field.name)).map (·.name) ++
      (m.relations.map (·.fieldName)).filter fields.isWritable).filter (fun name => !supplied name) = [] := by
    refine List.filter_eq_nil_iff.mpr fun name hname => ?_
    rcases List.mem_append.mp hname with hname | hname
    · obtain ⟨field, hfield, rfl⟩ := List.mem_map.mp hname
      obtain ⟨hfield, hopen⟩ := List.mem_filter.mp hfield
      simp only [Bool.not_eq_true', Bool.or_eq_false_iff, Bool.not_eq_false'] at hopen
      obtain ⟨⟨⟨hauto, -⟩, hnull⟩, hwritable⟩ := hopen
      obtain ⟨json, hjson, valid⟩ := sufficient.required field hfield hauto hnull hwritable
      simp [h _ json hjson valid.ne_null]
    · obtain ⟨hname, hwritable⟩ := List.mem_filter.mp hname
      obtain ⟨relation, hrelation, rfl⟩ := List.mem_map.mp hname
      obtain ⟨n, hjson, -⟩ := sufficient.relations relation hrelation hwritable
      simp [h _ _ hjson nofun]
  rw [Serializer.bodyErrors]
  simp only [hclosed, List.foldl_nil, Bool.false_eq_true, if_false]
  rw [hsupplied, List.foldl_nil]
  intro name json hjson hnull
  rw [hjson]
  cases json <;> first | rfl | exact absurd rfl hnull

/-- When the value of a field is read. -/
theorem Sufficient.field_isOk (sufficient : Sufficient m fields entries) {field : FieldMeta} (hfield : field ∈ m.fields)
    (hauto : field.auto = false) : (∃ v, readField field (getEntry (.object entries) field.name) = .ok v) ↔
      (field.nullable = false → field.kind ≠ .boolean → fields.isWritable field.name = true) ∧
        (Unsupported field.kind → ∀ json, getEntry (.object entries) field.name = some json → json = .null) := by
  have hgiven {json : Json F64} (valid : ValidFor field.kind json) : (∃ v, readField field (some json) = .ok v) ↔
      (Unsupported field.kind → ∀ json', some json = some json' → json' = .null) := by
    constructor
    · rintro ⟨v, hv⟩ unsupported
      obtain ⟨e, he⟩ := readField_unsupported unsupported valid.ne_null
      rw [hv] at he
      cases he
    · exact fun h => readField_valid valid fun unsupported => valid.ne_null (h unsupported json rfl)
  cases hwritable : fields.isWritable field.name with
  | false =>
    rw [sufficient.closed_absent hwritable, readField_absent]
    cases field.nullable <;> simp
  | true =>
    simp only [implies_true, true_and]
    cases hnull : field.nullable with
    | false =>
      obtain ⟨json, hjson, valid⟩ := sufficient.required field hfield hauto hnull hwritable
      rw [hjson, hgiven valid]
    | true =>
      cases hjson : getEntry (.object entries) field.name with
      | none => simp [readField_absent, hnull]
      | some json =>
        rcases sufficient.nullable field hfield hauto hnull hwritable json hjson with rfl | valid
        · simp [readField_null hnull]
        · rw [hgiven valid]

theorem Sufficient.relation_isOk (sufficient : Sufficient m fields entries) {relation : RelationMeta}
    (hrelation : relation ∈ m.relations) :
    ∃ v, readRelation relation (getEntry (.object entries) relation.fieldName) = .ok v := by
  cases hwritable : fields.isWritable relation.fieldName with
  | false => exact ⟨.null, by rw [sufficient.closed_absent hwritable, readRelation]⟩
  | true =>
    obtain ⟨n, hjson, range⟩ := sufficient.relations relation hrelation hwritable
    exact ⟨.i64 n, by rw [hjson, readRelation_int range]⟩

theorem Sufficient.deserialize_isOk (sufficient : Sufficient m fields entries) :
    (∃ values, deserializeInner m (.object entries) false = .ok values) ↔ ∀ field ∈ m.fields, field.auto = false →
      (field.nullable = false → field.kind ≠ .boolean → fields.isWritable field.name = true) ∧
        (Unsupported field.kind → ∀ json, getEntry (.object entries) field.name = some json → json = .null) := by
  rw [Rest.deserialize_isOk, readFields_whole]
  constructor
  · intro h field hfield hauto
    refine (sufficient.field_isOk hfield hauto).mp (h (field.name, _) (List.mem_append_left _ ?_))
    exact List.mem_map.mpr ⟨field, List.mem_filter.mpr ⟨hfield, by simp [hauto]⟩, rfl⟩
  · intro h result hresult
    rcases List.mem_append.mp hresult with hresult | hresult
    · obtain ⟨field, hfield, rfl⟩ := List.mem_map.mp hresult
      obtain ⟨hfield, hauto⟩ := List.mem_filter.mp hfield
      have hauto : field.auto = false := by simpa using hauto
      exact (sufficient.field_isOk hfield hauto).mpr (h field hfield hauto)
    · obtain ⟨relation, hrelation, rfl⟩ := List.mem_map.mp hresult
      exact sufficient.relation_isOk hrelation

/-- A serializer takes what is deserialized of a body that suffices, but what is closed. -/
theorem Sufficient.toInternalValue {m : Model} {validators : List Validator} {values : List (String × Value)}
    (sufficient : Sufficient m.info fields entries) :
    (Serializer.model fields validators : Serializer m).toInternalValue (.object entries) false = .ok values ↔
      ∃ read, deserializeInner m.info (.object entries) false = .ok read ∧
        read.filter (fun value => fields.isWritable value.1) = values := by
  rw [Serializer.toInternalValue, sufficient.bodyErrors]
  cases deserializeInner m.info (.object entries) false with
  | error errors => simp
  | ok read => simp [ValidationErrors.isEmpty, ValidationErrors.new]

end Acceptance

/-- A body that gives what is writable and required, and nothing else, is taken as values of columns exactly if what is
    closed may be left out of the model's fields, no link to many rows is writable, and it gives no value of a kind that is
    not supported. -/
theorem body_accepted_iff [Wire] {m : Model} {fields : FieldSet} {entries : List (List Char × Json F64)}
    (differ : NamesDiffer m.info) (validators : List Validator) (sufficient : Sufficient m.info fields entries) :
    Accepted m fields validators entries ↔ Served m.info fields entries := by
  have hread {read : List (String × Value)} (hok : deserializeInner m.info (.object entries) false = .ok read)
      {value : String × Value} : value ∈ read ↔ (value.1, .ok value.2) ∈ readFields m.info (.object entries) false :=
    mem_deserialized hok
  constructor
  · rintro ⟨values, hvalues, hcolumns⟩
    obtain ⟨read, hok, rfl⟩ := sufficient.toInternalValue.mp hvalues
    have hfields := sufficient.deserialize_isOk.mp ⟨read, hok⟩
    refine ⟨fun field hfield hauto => (hfields field hfield hauto).1, fun relation hrelation hkind => ?_,
      fun field hfield hauto => (hfields field hfield hauto).2⟩
    by_contra hwritable
    rw [Bool.not_eq_false] at hwritable
    obtain ⟨v, hv⟩ := sufficient.relation_isOk hrelation
    have hmem : (relation.fieldName, v) ∈ read := by
      rw [hread hok, readFields_whole]
      exact List.mem_append_right _ (List.mem_map.mpr ⟨relation, hrelation, Prod.ext rfl hv⟩)
    obtain ⟨hfieldNames, hrelationNames, hdisjoint⟩ := List.nodup_append.mp differ
    rcases List.mem_append.mp (hcolumns _ (List.mem_filter.mpr ⟨hmem, hwritable⟩)) with hname | hname
    · exact hdisjoint _ hname _ (List.mem_map_of_mem hrelation) rfl
    · obtain ⟨other, hother, heq⟩ := List.mem_map.mp hname
      obtain ⟨hother, hcolumn⟩ := List.mem_filter.mp hother
      cases List.inj_on_of_nodup_map hrelationNames hother hrelation heq
      rw [hasColumn, hkind] at hcolumn
      cases hcolumn
  · intro served
    obtain ⟨read, hok⟩ := sufficient.deserialize_isOk.mpr fun field hfield hauto =>
      ⟨served.closed field hfield hauto, served.kinds field hfield hauto⟩
    refine ⟨_, sufficient.toInternalValue.mpr ⟨read, hok, rfl⟩, fun value hvalue => ?_⟩
    obtain ⟨hvalue, hwritable⟩ := List.mem_filter.mp hvalue
    rw [hread hok, readFields_whole] at hvalue
    rcases List.mem_append.mp hvalue with hvalue | hvalue
    · obtain ⟨field, hfield, heq⟩ := List.mem_map.mp hvalue
      rw [← congrArg Prod.fst heq]
      exact List.mem_append_left _ (List.mem_map_of_mem (List.mem_of_mem_filter hfield))
    · obtain ⟨relation, hrelation, heq⟩ := List.mem_map.mp hvalue
      rw [← congrArg Prod.fst heq] at hwritable ⊢
      refine List.mem_append_right _ (List.mem_map_of_mem (List.mem_filter.mpr ⟨hrelation, ?_⟩))
      rw [hasColumn, bne_iff_ne]
      intro hkind
      rw [served.columns relation hrelation hkind] at hwritable
      cases hwritable

/-! ### A guest with an arrival -/

attribute [local instance] Wire.epoch

def guestMeta : ModelMeta where
  structName := "Guest"
  appLabel := "hotel"
  tableName := "hotel_guest"
  fields := [
    { name := "id", columnName := "id", kind := .bigInt, primaryKey := true, auto := true },
    { name := "name", columnName := "name", kind := .text },
    { name := "arrived", columnName := "arrived", kind := .dateTime }]
  relations := [{ fieldName := "room", kind := .foreignKey, target := "Room" }]

def guestModel : Model := ⟨guestMeta, Unit, fun _ => []⟩

theorem guest_namesDiffer : NamesDiffer guestMeta := by
  rw [NamesDiffer]
  decide

def guestEntries : List (List Char × Json F64) := [("name".toList, .string "Ada".toList), ("room".toList, .int 3)]

def arrivalEntries : List (List Char × Json F64) := ("arrived".toList, .string epochText.toList) :: guestEntries

theorem guestEntries_sufficient : Sufficient guestMeta { readOnly := ["arrived"] } guestEntries where
  writable entry hentry := by
    rcases List.mem_cons.mp hentry with rfl | hentry
    · rfl
    · cases List.mem_singleton.mp hentry
      rfl
  member entry hentry := by
    rcases List.mem_cons.mp hentry with rfl | hentry
    · exact .inl ⟨_, .tail _ (.head _), rfl, rfl⟩
    · cases List.mem_singleton.mp hentry
      exact .inr ⟨_, .head _, rfl⟩
  required field hfield hauto hnull hwritable := by
    simp only [guestMeta, List.mem_cons, List.not_mem_nil, or_false] at hfield
    rcases hfield with rfl | rfl | rfl
    · cases hauto
    · exact ⟨_, rfl, @ValidFor.text _ .text trivial _⟩
    · cases hwritable
  nullable field hfield hauto hnull hwritable json hjson := by
    simp only [guestMeta, List.mem_cons, List.not_mem_nil, or_false] at hfield
    rcases hfield with rfl | rfl | rfl <;> cases hnull
  relations relation hrelation hwritable := by
    cases List.mem_singleton.mp hrelation
    exact ⟨3, rfl, by decide, by decide⟩

theorem arrivalEntries_sufficient : Sufficient guestMeta {} arrivalEntries where
  writable entry hentry := rfl
  member entry hentry := by
    rcases List.mem_cons.mp hentry with rfl | hentry
    · exact .inl ⟨_, .tail _ (.tail _ (.head _)), rfl, rfl⟩
    · exact guestEntries_sufficient.member entry hentry
  required field hfield hauto hnull hwritable := by
    simp only [guestMeta, List.mem_cons, List.not_mem_nil, or_false] at hfield
    rcases hfield with rfl | rfl | rfl
    · cases hauto
    · exact ⟨_, rfl, @ValidFor.text _ .text trivial _⟩
    · exact ⟨_, rfl, .dateTime rfl⟩
  nullable field hfield hauto hnull hwritable json hjson := by
    simp only [guestMeta, List.mem_cons, List.not_mem_nil, or_false] at hfield
    rcases hfield with rfl | rfl | rfl <;> cases hnull
  relations relation hrelation hwritable := by
    cases List.mem_singleton.mp hrelation
    exact ⟨3, rfl, by decide, by decide⟩

theorem arrival_accepted : Accepted guestModel {} [] arrivalEntries := by
  refine (body_accepted_iff guest_namesDiffer [] arrivalEntries_sufficient).mpr ⟨fun _ _ _ _ _ => rfl, ?_, ?_⟩
  · intro relation hrelation hkind
    cases List.mem_singleton.mp hrelation
    cases hkind
  · intro field hfield hauto unsupported
    simp only [guestModel, guestMeta, List.mem_cons, List.not_mem_nil, or_false] at hfield
    rcases hfield with rfl | rfl | rfl <;> exact unsupported.elim

/-- An arrival that only the server may write is demanded of the client. -/
theorem arrival_demanded : Sufficient guestMeta { readOnly := ["arrived"] } guestEntries ∧
    ¬Accepted guestModel { readOnly := ["arrived"] } [] guestEntries := by
  refine ⟨guestEntries_sufficient, ?_⟩
  rintro ⟨values, hok, -⟩
  cases hok

end Djangors.Rest
