import Djangors.Lib.Lists
import Djangors.Orm.Derive
import Djangors.Theorems.SerializedFields
import Mathlib.Data.List.Perm.Basic

/-! # What is serialized is read back

The entries of a serialized instance are looked up under the names of its values, and each entry is read by the kind of
its field. A field of a kind that no body may hold is refused, and so is a time that RFC 3339 cannot write. -/

namespace Djangors.Rest
open Db Orm

/-! ### Entries -/

section Entries
variable {φ : Type}

theorem lookup_cons_if {κ β : Type} [BEq κ] [LawfulBEq κ] [DecidableEq κ] (key name : κ) (value : β) (entries : List (κ × β)) :
    ((name, value) :: entries).lookup key = if key = name then some value else entries.lookup key := by
  rw [List.lookup_cons]
  by_cases h : key = name
  · simp [h]
  · simp [h, beq_false_of_ne h]

theorem lookup_insertEntry (key name : List Char) (value : Json φ) (entries : List (List Char × Json φ)) :
    (Json.insertEntry name value entries).lookup key = if key = name then some value else entries.lookup key := by
  induction entries with
  | nil => rw [Json.insertEntry, lookup_cons_if]
  | cons entry entries ih =>
    obtain ⟨other, held⟩ := entry
    rw [Json.insertEntry]
    by_cases hname : name = other
    · subst hname
      rw [if_pos rfl, lookup_cons_if, lookup_cons_if]
      split <;> rfl
    · rw [if_neg hname]
      split
      · rw [lookup_cons_if]
      · rw [lookup_cons_if, ih, lookup_cons_if]
        by_cases h : key = name
        · subst h
          rw [if_neg hname, if_pos rfl, if_pos rfl]
        · rw [if_neg h, if_neg h]

variable [Wire]

theorem lookup_insertValues {values : List (String × Value)} (distinct : (values.map (·.1)).Nodup) (name : String)
    (entries : List (List Char × Json F64)) : (insertValues values entries).lookup name.toList =
      ((values.lookup name).map valueToJson).or (entries.lookup name.toList) := by
  induction values generalizing entries with
  | nil => rfl
  | cons value values ih =>
    obtain ⟨other, v⟩ := value
    obtain ⟨hother, distinct⟩ := List.nodup_cons.mp distinct
    have hstep : insertValues ((other, v) :: values) entries =
        insertValues values (Json.insertEntry other.toList (valueToJson v) entries) := rfl
    rw [hstep, ih distinct, lookup_insertEntry, lookup_cons_if]
    by_cases h : name = other
    · subst h
      have habsent : values.lookup name = none := by
        rw [List.lookup_eq_none_iff]
        intro entry hentry
        exact bne_iff_ne.mpr fun heq => hother (List.mem_map.mpr ⟨entry, hentry, heq.symm⟩)
      rw [habsent, if_pos rfl, if_pos rfl]
      rfl
    · rw [if_neg h, if_neg fun heq => h (String.toList_inj.mp heq)]

/-- The entry of a name in a serialized instance. -/
theorem getEntry_serialize {m : Model} {x : m.Instance} (distinct : ((m.fieldValues x).map (·.1)).Nodup) (name : String) :
    getEntry (.object (serialize m x)) name = ((m.fieldValues x).lookup name).map valueToJson := by
  rw [getEntry, serialize, lookup_insertValues distinct, List.lookup_nil, Option.or_none]

end Entries

/-! ### Bodies -/

section Bodies

theorem read_ok_iff {ε α : Type} {results : List (String × Except ε α)} {values : List (String × α)} :
    results.filterMap errorOf = [] ∧ results.filterMap valueOf = values ↔
      results = values.map fun value => (value.1, .ok value.2) := by
  induction results generalizing values with
  | nil => cases values <;> simp
  | cons result results ih =>
    obtain ⟨name, _ | v⟩ := result
    · cases values <;> simp [errorOf]
    · cases values with
      | nil => simp [errorOf, valueOf]
      | cons value values =>
        obtain ⟨other, w⟩ := value
        simp only [List.filterMap_cons, errorOf, valueOf, List.cons.injEq, List.map_cons, Prod.mk.injEq, Except.ok.injEq,
          ← ih]
        tauto

variable [Wire] {m : ModelMeta} {json : Json F64} {partly : Bool} {values : List (String × Value)}

/-- A body is taken when the value of each field is. -/
theorem deserialize_eq_ok {entries : List (List Char × Json F64)} :
    deserializeInner m (.object entries) partly = .ok values ↔
      readFields m (.object entries) partly = values.map fun value => (value.1, .ok value.2) := by
  rw [← read_ok_iff, deserializeInner]
  by_cases h : (readFields m (.object entries) partly).filterMap errorOf = [] <;> simp [h]

theorem deserialize_error {entries : List (List Char × Json F64)}
    (h : ∀ values, deserializeInner m (.object entries) partly ≠ .ok values) :
    ∃ errors, deserializeInner m (.object entries) partly = .error errors := by
  cases hresult : deserializeInner m (.object entries) partly with
  | error errors => exact ⟨errors, rfl⟩
  | ok values => exact absurd hresult (h values)

theorem readFields_whole : readFields m json false =
    (m.fields.filter (!·.auto)).map (fun field => (field.name, readField field (getEntry json field.name))) ++
      m.relations.map fun relation => (relation.fieldName, readRelation relation (getEntry json relation.fieldName)) := by
  simp [readFields]

end Bodies

/-! ### Kinds -/

/-- The kinds that a body may not hold values of. -/
def Unsupported : FieldKind → Prop
  | .decimal _ _ | .date | .time | .duration | .uuid => True
  | _ => False

/-- The kinds whose values are texts in a body. -/
def Textual : FieldKind → Prop
  | .char | .text | .fileField | .email | .url | .slug | .ip | .binary | .json => True
  | _ => False

def Whole (kind : FieldKind) : Prop := kind = .integer ∨ kind = .bigInt

def InRange (n : Int) : Prop := -2 ^ 63 ≤ n ∧ n < 2 ^ 63

/-- The values of a kind. Dates, durations, UUIDs and decimals are given as texts. -/
inductive OfKind : FieldKind → Value → Prop
  | text {kind : FieldKind} (s : String) (h : Textual kind ∨ Unsupported kind) : OfKind kind (.text s)
  | int {kind : FieldKind} {n : Int} (h : Whole kind) (range : InRange n) : OfKind kind (.i64 n)
  | float {x : F64} (finite : isFinite x = true) : OfKind .float (.f64 x)
  | bool (b : Bool) : OfKind .boolean (.bool b)
  | dateTime (t : DateTime) : OfKind .dateTime (.dateTime t)

/-- The years of four digits, in nanoseconds from 1970 on. -/
def FourDigits (t : DateTime) : Prop := -62167219200 * 1000000000 ≤ t.nanos ∧ t.nanos < 253402300800 * 1000000000

/-- chrono reads what it has written of a time in a year of four digits. RFC 3339 has no other years. -/
structure Chrono [Wire] : Prop where
  read : ∀ t, FourDigits t → Parse.rfc3339 (Wire.toRfc3339 t) = some t
  unread : ∀ t, ¬FourDigits t → Parse.rfc3339 (Wire.toRfc3339 t) = none
  not_naive : ∀ t, Parse.naive (Wire.toRfc3339 t) = none

/-- A value that is read from its own text. -/
def Legible (kind : FieldKind) (v : Value) : Prop := v = .null ∨ ¬Unsupported kind ∧ ∀ t, v = .dateTime t → FourDigits t

section Kinds

theorem asI64_int {n : Int} (h : InRange n) : asI64 (.int n) = some n := if_pos h

theorem readI64_int {name what : String} {n : Int} (h : InRange n) : readI64 name what (.int n) = .ok (.i64 n) := by
  rw [readI64, asI64_int h]

theorem readRelation_int {relation : RelationMeta} {n : Int} (h : InRange n) :
    readRelation relation (some (.int n)) = .ok (.i64 n) := readI64_int h

variable [Wire] {field : FieldMeta} {v : Value}

theorem readField_null (h : field.nullable = true) : readField field (some .null) = .ok .null := by
  by_cases hkind : field.kind = .boolean
  · simp [readField, hkind, readBool, h]
  · simp [readField, hkind, h]

theorem readField_unsupported (h : Unsupported field.kind) {json : Json F64} (hjson : json ≠ .null) :
    ∃ e, readField field (some json) = .error e := by
  obtain ⟨name, column, kind⟩ := field
  cases kind with
  | decimal | date | time | duration | uuid => cases json <;> simp [readField] at hjson ⊢
  | _ => exact h.elim

theorem readField_text (h : Textual field.kind) (s : String) : readField field (some (.string s.toList)) = .ok (.text s) := by
  obtain ⟨name, column, kind⟩ := field
  cases kind with
  | char | text | fileField | email | url | slug | ip | binary | json => simp [readField, asStr]
  | _ => exact h.elim

theorem readField_int (h : Whole field.kind) {n : Int} (range : InRange n) :
    readField field (some (.int n)) = .ok (.i64 n) := by
  have hread (what : String) := @readI64_int field.name what n range
  rcases h with h | h <;> simp [readField, h, hread]

theorem readField_dateTime (chrono : Chrono) (h : field.kind = .dateTime) (t : DateTime) :
    (FourDigits t → readField field (some (valueToJson (.dateTime t))) = .ok (.dateTime t)) ∧
      (¬FourDigits t → ∃ e, readField field (some (valueToJson (.dateTime t))) = .error e) := by
  have hread := chrono.read t
  have hunread := chrono.unread t
  constructor
  · intro hyears
    simp [readField, h, valueToJson, asStr, hread hyears]
  · intro hyears
    simp [readField, h, valueToJson, asStr, hunread hyears, chrono.not_naive, invalid]

/-- A value of the kind of its field is read from its text, unless the kind is not supported or its time has no text. -/
theorem readField_written (chrono : Chrono) (h : v = .null ∧ field.nullable = true ∨ OfKind field.kind v) :
    (Legible field.kind v → readField field (some (valueToJson v)) = .ok v) ∧
      (¬Legible field.kind v → ∃ e, readField field (some (valueToJson v)) = .error e) := by
  rcases h with ⟨rfl, hnull⟩ | h
  · exact ⟨fun _ => readField_null hnull, fun hnot => absurd (.inl rfl) hnot⟩
  · generalize hkind : field.kind = kind at h ⊢
    cases h with
    | text s h =>
      rcases h with h | h
      · have hsupported : ¬Unsupported kind := by
          cases kind <;> simp [Textual] at h <;> exact id
        exact ⟨fun _ => readField_text (hkind ▸ h) s, fun hnot => absurd (.inr ⟨hsupported, by rintro _ ⟨⟩⟩) hnot⟩
      · refine ⟨fun hlegible => ?_, fun _ => readField_unsupported (hkind ▸ h) (by rintro ⟨⟩)⟩
        rcases hlegible with hnull | hlegible
        · cases hnull
        · exact absurd h hlegible.1
    | int h range =>
      refine ⟨fun _ => readField_int (hkind ▸ h) range, fun hnot => absurd (.inr ⟨?_, by rintro _ ⟨⟩⟩) hnot⟩
      rcases h with rfl | rfl <;> exact id
    | float finite =>
      rw [valueToJson, if_pos finite]
      exact ⟨fun _ => by simp [readField, hkind, asF64], fun hnot => absurd (.inr ⟨id, by rintro _ ⟨⟩⟩) hnot⟩
    | bool b =>
      refine ⟨fun _ => by simp [readField, hkind, valueToJson, readBool], fun hnot => absurd (.inr ⟨id, ?_⟩) hnot⟩
      rintro _ ⟨⟩
    | dateTime t =>
      have hread := readField_dateTime chrono hkind t
      constructor
      · rintro (hnull | ⟨-, hyears⟩)
        · cases hnull
        · exact hread.1 (hyears t rfl)
      · intro hnot
        refine hread.2 fun hyears => hnot (.inr ⟨id, ?_⟩)
        rintro _ ⟨⟩
        exact hyears

end Kinds

/-! ### Instances -/

/-- Fields and relations have different names. -/
def NamesDiffer (m : ModelMeta) : Prop := (m.fields.map (·.name) ++ m.relations.map (·.fieldName)).Nodup

def hasColumn (relation : RelationMeta) : Bool := relation.kind != .manyToMany

/-- An instance has a value of its kind for each field and for each relation that has a column. -/
structure Conforms (m : Model) (x : m.Instance) : Prop where
  names : ((m.fieldValues x).map (·.1)).Perm
    (m.info.fields.map (·.name) ++ (m.info.relations.filter hasColumn).map (·.fieldName))
  fields : ∀ field ∈ m.info.fields, ∀ v, (field.name, v) ∈ m.fieldValues x →
    v = .null ∧ field.nullable = true ∨ OfKind field.kind v
  relations : ∀ relation ∈ m.info.relations, ∀ v, (relation.fieldName, v) ∈ m.fieldValues x →
    v = .null ∨ ∃ n, v = .i64 n ∧ InRange n

/-- The name of an auto field. -/
def isAuto (m : ModelMeta) (name : String) : Bool := m.fields.any fun field => field.auto && field.name == name

/-- The values of an instance but those of auto fields. -/
def writtenValues (m : Model) (x : m.Instance) : List (String × Value) :=
  (m.fieldValues x).filter fun value => !isAuto m.info value.1

/-- Deserializing what an instance is serialized to gives its values, but those of auto fields. -/
def ReadsBack [Wire] (m : Model) (x : m.Instance) : Prop :=
  ∃ values, deserializeInner m.info (.object (serialize m x)) false = .ok values ∧ values.Perm (writtenValues m x)

section Names
variable {m : ModelMeta}

theorem isAuto_field (differ : NamesDiffer m) {field : FieldMeta} (h : field ∈ m.fields) : isAuto m field.name = field.auto := by
  have distinct := (List.nodup_append.mp differ).1
  cases hauto : field.auto with
  | true => exact List.any_eq_true.mpr ⟨field, h, by simp [hauto]⟩
  | false =>
    refine List.any_eq_false.mpr fun other hother heq => ?_
    rw [Bool.and_eq_true, beq_iff_eq] at heq
    have hsame : other = field := List.inj_on_of_nodup_map distinct hother h heq.2
    rw [hsame, hauto] at heq
    exact absurd heq.1 Bool.false_ne_true

theorem isAuto_relation (differ : NamesDiffer m) {relation : RelationMeta} (h : relation ∈ m.relations) :
    isAuto m relation.fieldName = false := by
  refine List.any_eq_false.mpr fun field hfield heq => ?_
  rw [Bool.and_eq_true, beq_iff_eq] at heq
  exact (List.nodup_append.mp differ).2.2 _ (List.mem_map_of_mem hfield) _ (List.mem_map_of_mem h) heq.2

/-- What is left of named values of all fields and relations without those of auto fields. -/
theorem filter_auto (differ : NamesDiffer m) (v : String → Value) :
    ((m.fields.map (·.name) ++ m.relations.map (·.fieldName)).map fun name => (name, v name)).filter
        (fun value => !isAuto m value.1) =
      (m.fields.filter (!·.auto)).map (fun field => (field.name, v field.name)) ++
        m.relations.map fun relation => (relation.fieldName, v relation.fieldName) := by
  rw [List.map_append, List.filter_append, List.map_map, List.map_map, List.filter_map, List.filter_map]
  congr 1
  · refine congrArg _ (List.filter_congr fun field hfield => ?_)
    exact congrArg _ (isAuto_field differ hfield)
  · refine congrArg _ (List.filter_eq_self.mpr fun relation hrelation => ?_)
    exact congrArg _ (isAuto_relation differ hrelation)

end Names

section Instances
variable {m : Model} {x : m.Instance}

/-- The value of a name. -/
def valueAt (m : Model) (x : m.Instance) (name : String) : Value := ((m.fieldValues x).lookup name).getD .null

/-- What an instance that conforms has for its names, when all its relations have columns. -/
structure Known (m : Model) (x : m.Instance) : Prop where
  names : ((m.fieldValues x).map (·.1)).Perm (m.info.fields.map (·.name) ++ m.info.relations.map (·.fieldName))
  distinct : ((m.fieldValues x).map (·.1)).Nodup

theorem Conforms.known (conforms : Conforms m x) (differ : NamesDiffer m.info)
    (columns : ∀ relation ∈ m.info.relations, relation.kind ≠ .manyToMany) : Known m x := by
  have hall : m.info.relations.filter hasColumn = m.info.relations :=
    List.filter_eq_self.mpr fun relation hrelation => bne_iff_ne.mpr (columns relation hrelation)
  have hnames := conforms.names
  rw [hall] at hnames
  exact ⟨hnames, hnames.nodup_iff.mpr differ⟩

theorem Known.value_mem (known : Known m x) {name : String}
    (h : name ∈ m.info.fields.map (·.name) ++ m.info.relations.map (·.fieldName)) :
    (name, valueAt m x name) ∈ m.fieldValues x := by
  obtain ⟨⟨_, v⟩, hv, rfl⟩ := List.mem_map.mp (known.names.mem_iff.mpr h)
  rw [valueAt, List.lookup_of_mem known.distinct hv]
  exact hv

theorem Known.entry [Wire] (known : Known m x) {name : String}
    (h : name ∈ m.info.fields.map (·.name) ++ m.info.relations.map (·.fieldName)) :
    getEntry (.object (serialize m x)) name = some (valueToJson (valueAt m x name)) := by
  rw [getEntry_serialize known.distinct, List.lookup_of_mem known.distinct (known.value_mem h)]
  rfl

/-- The values of an instance in the order of its fields and relations. -/
theorem Known.written_perm (known : Known m x) (differ : NamesDiffer m.info) : (writtenValues m x).Perm
    ((m.info.fields.filter (!·.auto)).map (fun field => (field.name, valueAt m x field.name)) ++
      m.info.relations.map fun relation => (relation.fieldName, valueAt m x relation.fieldName)) := by
  have hvalues : m.fieldValues x = ((m.fieldValues x).map (·.1)).map fun name => (name, valueAt m x name) := by
    rw [List.map_map]
    refine (List.map_id _).symm.trans (List.map_congr_left fun value hvalue => ?_)
    rw [Function.comp_apply, valueAt, List.lookup_of_mem known.distinct hvalue]
    rfl
  rw [writtenValues, ← filter_auto differ, hvalues]
  exact (known.names.map _).filter _

/-- No value is of a kind that is not supported, or a time that has no text. -/
def AllLegible (m : Model) (x : m.Instance) : Prop := ∀ field ∈ m.info.fields, field.auto = false →
  ∀ v, (field.name, v) ∈ m.fieldValues x → Legible field.kind v

variable [Wire]

theorem readFields_serialized (known : Known m x) (conforms : Conforms m x) :
    readFields m.info (.object (serialize m x)) false =
      (m.info.fields.filter (!·.auto)).map
        (fun field => (field.name, readField field (some (valueToJson (valueAt m x field.name))))) ++
      m.info.relations.map fun relation => (relation.fieldName, .ok (valueAt m x relation.fieldName)) := by
  rw [readFields_whole]
  congr 1
  · refine List.map_congr_left fun field hfield => ?_
    rw [known.entry (List.mem_append_left _ (List.mem_map_of_mem (List.mem_of_mem_filter hfield)))]
  · refine List.map_congr_left fun relation hrelation => ?_
    have hmem := List.mem_append_right (m.info.fields.map (·.name)) (List.mem_map_of_mem (f := (·.fieldName)) hrelation)
    rw [known.entry hmem]
    rcases conforms.relations relation hrelation _ (known.value_mem hmem) with hv | ⟨n, hv, range⟩
    · rw [hv]
      rfl
    · rw [hv, valueToJson, readRelation_int range]

/-- An instance of a model whose relations have columns is read back from its serialization unless a value is of a kind
    that is not supported or a time that RFC 3339 cannot write, and then it is refused. -/
theorem serialized_read_back (chrono : Chrono) (differ : NamesDiffer m.info) (conforms : Conforms m x)
    (columns : ∀ relation ∈ m.info.relations, relation.kind ≠ .manyToMany) :
    (ReadsBack m x ↔ AllLegible m x) ∧
      (¬AllLegible m x → ∃ errors, deserializeInner m.info (.object (serialize m x)) false = .error errors) := by
  have known := conforms.known differ columns
  have hwritten (field : FieldMeta) (hfield : field ∈ m.info.fields) :=
    readField_written chrono (conforms.fields field hfield _
      (known.value_mem (List.mem_append_left _ (List.mem_map_of_mem hfield))))
  have hback : AllLegible m x → ReadsBack m x := by
    intro legible
    refine ⟨_, deserialize_eq_ok.mpr ?_, (known.written_perm differ).symm⟩
    rw [readFields_serialized known conforms, List.map_append, List.map_map, List.map_map]
    congr 1
    refine List.map_congr_left fun field hfield => ?_
    obtain ⟨hfield, hauto⟩ := List.mem_filter.mp hfield
    have hmem := known.value_mem (List.mem_append_left _ (List.mem_map_of_mem hfield))
    rw [(hwritten field hfield).1 (legible field hfield (by simpa using hauto) _ hmem)]
    rfl
  have hrefused : ¬AllLegible m x → ∀ values, deserializeInner m.info (.object (serialize m x)) false ≠ .ok values := by
    intro hnot values hok
    refine hnot fun field hfield hauto v hv => by_contra fun hbad => ?_
    have hvalue : valueAt m x field.name = v := by
      rw [valueAt, List.lookup_of_mem known.distinct hv]
      rfl
    obtain ⟨e, he⟩ := (hwritten field hfield).2 (hvalue ▸ hbad)
    have hread := deserialize_eq_ok.mp hok
    rw [readFields_serialized known conforms] at hread
    have hmem : (field.name, readField field (some (valueToJson (valueAt m x field.name)))) ∈
        values.map fun value => (value.1, (.ok value.2 : Except String Value)) := by
      rw [← hread]
      exact List.mem_append_left _ (List.mem_map.mpr ⟨field, List.mem_filter.mpr ⟨hfield, by simp [hauto]⟩, rfl⟩)
    obtain ⟨value, -, heq⟩ := List.mem_map.mp hmem
    rw [he] at heq
    cases (Prod.mk.injEq .. ▸ heq).2
  refine ⟨⟨fun ⟨values, hok, _⟩ => by_contra fun hnot => hrefused hnot values hok, hback⟩, fun hnot => ?_⟩
  exact deserialize_error (hrefused hnot)

end Instances

/-! ### Derived models -/

section Derived
variable {ρ : Type}

/-- What a field of a type holds. -/
inductive Suits : FieldType → Held ρ → Prop
  | text (s : String) : Suits .string (.text s)
  | i32 {n : Int} (low : -2 ^ 31 ≤ n) (high : n < 2 ^ 31) : Suits .i32 (.int n)
  | i64 {n : Int} (range : InRange n) : Suits .i64 (.int n)
  | f32 {x : F64} (finite : isFinite x = true) : Suits .f32 (.float x)
  | f64 {x : F64} (finite : isFinite x = true) : Suits .f64 (.float x)
  | bool (b : Bool) : Suits .bool (.bool b)
  | dateTime (t : DateTime) : Suits .dateTime (.dateTime t)
  | naiveDate (v : ρ) : Suits .naiveDate (.parsed v)
  | naiveTime (v : ρ) : Suits .naiveTime (.parsed v)
  | duration (v : ρ) : Suits .duration (.parsed v)
  | uuid (v : ρ) : Suits .uuid (.parsed v)
  | decimal (maxDigits decimalPlaces : Nat) (v : ρ) : Suits (.decimal maxDigits decimalPlaces) (.parsed v)

/-- What a member of an instance holds: nothing only where the type has a `None`. -/
def SuitsMember : Member → Held ρ → Prop
  | .field f, held => held = .absent ∧ f.nullable = true ∨ Suits f.type held
  | .relation _, held => Suits .i64 held

/-- A derived model as a serializer sees it. -/
def derivedModel (T : TextTypes ρ) (M : DerivedModel) : Model := ⟨M.info, Object ρ, M.fieldValues T⟩

theorem idents_perm (members : List Member) : (members.map Member.ident).Perm
    (((members.filterMap Member.field?).map DerivedField.info).map (·.name) ++
      (members.filterMap Member.relation?).map (·.fieldName)) := by
  induction members with
  | nil => exact .nil
  | cons member members ih =>
    cases member with
    | field f => exact ih.cons _
    | relation r => exact (ih.cons _).trans List.perm_middle.symm

theorem modelFields_perm (members : List Member) : ((members.filter Member.hasColumn).map Member.ident).Perm
    (((members.filterMap Member.field?).map DerivedField.info).map (·.name) ++
      ((members.filterMap Member.relation?).filter hasColumn).map (·.fieldName)) := by
  induction members with
  | nil => exact .nil
  | cons member members ih =>
    cases member with
    | field f => exact ih.cons _
    | relation r =>
      have hsame : Member.hasColumn (.relation r) = hasColumn r := rfl
      rw [List.filter_cons, hsame, List.filterMap_cons, List.filterMap_cons]
      simp only [Member.field?, Member.relation?]
      rw [List.filter_cons]
      cases hasColumn r with
      | true => exact (ih.cons _).trans List.perm_middle.symm
      | false => exact ih

theorem derived_namesDiffer (M : DerivedModel) : NamesDiffer M.info := (idents_perm M.members).nodup_iff.mp M.idents_nodup

theorem Suits.ofKind {f : DerivedField} {held : Held ρ} (T : TextTypes ρ) (h : Suits f.type held) :
    OfKind f.kindToken (held.value T f.type) := by
  generalize htype : f.type = type at h
  have hkind : f.kindToken = f.kindToken := rfl
  conv_rhs at hkind => rw [DerivedField.kindToken, htype]
  rw [hkind]
  cases h with
  | text s =>
    refine .text s (.inl ?_)
    simp only
    split
    · exact trivial
    · split <;> exact trivial
  | i32 low high => exact .int (.inl rfl) ⟨by omega, by omega⟩
  | i64 range => exact .int (.inr rfl) range
  | f32 finite => exact .float finite
  | f64 finite => exact .float finite
  | bool b => exact .bool b
  | dateTime t => exact .dateTime t
  | naiveDate v => exact .text _ (.inr trivial)
  | naiveTime v => exact .text _ (.inr trivial)
  | duration v => exact .text _ (.inr trivial)
  | uuid v => exact .text _ (.inr trivial)
  | decimal maxDigits decimalPlaces v => exact .text _ (.inr trivial)

/-- The values of an instance of a derived model are those of its fields. -/
theorem derived_conforms (T : TextTypes ρ) (M : DerivedModel) {object : Object ρ}
    (h : ∀ member ∈ M.modelFields, ∃ held, object.lookup member.ident = some held ∧ SuitsMember member held) :
    Conforms (derivedModel T M) object := by
  have hvalue {name : String} {v : Value} (hv : (name, v) ∈ M.fieldValues T object) : ∃ member ∈ M.modelFields,
      ∃ held, member.ident = name ∧ held.value T member.type = v ∧ SuitsMember member held := by
    obtain ⟨member, hmember, heq⟩ := List.mem_map.mp hv
    obtain ⟨held, hlookup, hsuits⟩ := h member hmember
    rw [hlookup] at heq
    exact ⟨member, hmember, held, congrArg Prod.fst heq, congrArg Prod.snd heq, hsuits⟩
  have hunique {member other : Member} (hmember : member ∈ M.members) (hother : other ∈ M.members)
      (heq : member.ident = other.ident) : member = other := List.inj_on_of_nodup_map M.idents_nodup hmember hother heq
  refine ⟨?_, fun field hfield v hv => ?_, fun relation hrelation v hv => ?_⟩
  · have hnames : (M.fieldValues T object).map (·.1) = M.modelFields.map Member.ident := List.map_map ..
    exact (List.Perm.of_eq hnames).trans (modelFields_perm M.members)
  · obtain ⟨f, hf, rfl⟩ := List.mem_map.mp hfield
    obtain ⟨member, hmember, hmemberf⟩ := List.mem_filterMap.mp hf
    obtain ⟨other, hother, held, hname, rfl, hsuits⟩ := hvalue hv
    cases member with
    | relation r => cases hmemberf
    | field g =>
      cases hmemberf
      cases hunique (List.mem_of_mem_filter hother) hmember hname
      rcases hsuits with ⟨rfl, hnull⟩ | hsuits
      · exact .inl ⟨rfl, hnull⟩
      · exact .inr (hsuits.ofKind T)
  · obtain ⟨member, hmember, hmemberr⟩ := List.mem_filterMap.mp hrelation
    obtain ⟨other, hother, held, hname, rfl, hsuits⟩ := hvalue hv
    cases member with
    | field g => cases hmemberr
    | relation r =>
      cases hmemberr
      cases hunique (List.mem_of_mem_filter hother) hmember hname
      cases hsuits with
      | i64 range => exact .inr ⟨_, rfl, range⟩

end Derived

/-! ### A visit and a ticket -/

instance (t : DateTime) : Decidable (FourDigits t) := inferInstanceAs (Decidable (_ ∧ _))

def epochText : String := "1970-01-01T00:00:00+00:00"

/-- A wire that writes the time from which the others are counted as chrono does. -/
@[reducible] def Wire.epoch : Wire where
  f64 := fun _ => none
  rfc3339 := fun s => if s = epochText then some ⟨0⟩ else (Text.parseSigned (2 ^ 70) s.toList).map DateTime.mk
  naive := fun _ => none
  toRfc3339 := fun t => if t.nanos = 0 then epochText else if FourDigits t then toString t.nanos else ""
  f64OfInt := fun _ => .nan

attribute [local instance] Wire.epoch

theorem chrono_epoch : Chrono where
  read t h := by
    obtain ⟨n⟩ := t
    have hread : Text.parseSigned (2 ^ 70) (toString n).toList = some n := by
      obtain ⟨low, high⟩ := h
      exact Text.parseSigned_toString (by simp only at low; omega) (by simp only at high; omega)
    by_cases hzero : n = 0
    · subst hzero
      rfl
    · have hother : toString n ≠ epochText := by
        intro heq
        have hnone : Text.parseSigned (2 ^ 70) epochText.toList = none := by decide +kernel
        rw [heq, hnone] at hread
        cases hread
      have htext : Wire.toRfc3339 ⟨n⟩ = toString n := (if_neg hzero).trans (if_pos h)
      rw [htext]
      exact (if_neg hother).trans (congrArg (Option.map DateTime.mk) hread)
  unread t h := by
    have hzero : t.nanos ≠ 0 := fun heq => h ⟨by omega, by omega⟩
    have htext : Wire.toRfc3339 t = "" := (if_neg hzero).trans (if_neg h)
    rw [htext]
    rfl
  not_naive _ := rfl

def sameText : TextTypes String := ⟨fun _ s => .ok s, fun _ s => s⟩

def visitMembers : List Member :=
  [.relation { fieldName := "guest", kind := .foreignKey, target := "Guest" },
    .field { ident := "id", columnName := "id", type := .i64, primaryKey := true, auto := true },
    .field { ident := "note", columnName := "note", type := .string },
    .field { ident := "seen", columnName := "seen", type := .dateTime, nullable := true },
    .field { ident := "left", columnName := "left", type := .dateTime, nullable := true }]

theorem visitMembers_idents : (visitMembers.map Member.ident).Nodup := by decide

theorem visitMembers_columns : (visitMembers.map Member.columnName).Nodup := by decide

def visitModel : DerivedModel where
  structName := "Visit"
  appLabel := "hotel"
  tableName := "hotel_visit"
  members := visitMembers
  idents_nodup := visitMembers_idents
  columns_nodup := visitMembers_columns
  one_pk := ⟨_, rfl⟩

def visit : Object String :=
  [("guest", .int 3), ("id", .int 9), ("note", .text ""), ("seen", .dateTime ⟨0⟩), ("left", .absent)]

theorem visit_conforms : Conforms (derivedModel sameText visitModel) visit := by
  refine derived_conforms sameText visitModel fun member hmember => ?_
  simp only [DerivedModel.modelFields, visitModel, visitMembers, List.mem_filter, List.mem_cons, List.not_mem_nil, or_false]
    at hmember
  rcases hmember.1 with rfl | rfl | rfl | rfl | rfl
  · exact ⟨_, rfl, .i64 ⟨by decide, by decide⟩⟩
  · exact ⟨_, rfl, .inr (.i64 ⟨by decide, by decide⟩)⟩
  · exact ⟨_, rfl, .inr (.text "")⟩
  · exact ⟨_, rfl, .inr (.dateTime ⟨0⟩)⟩
  · exact ⟨_, rfl, .inl ⟨rfl, rfl⟩⟩

theorem visit_read_back : ReadsBack (derivedModel sameText visitModel) visit := by
  refine (serialized_read_back chrono_epoch (derived_namesDiffer visitModel) visit_conforms ?_).1.mpr ?_
  · intro relation hrelation
    cases List.mem_singleton.mp hrelation
    exact nofun
  · intro field hfield hauto v hv
    have hvalues : visitModel.fieldValues sameText visit =
        [("guest", .i64 3), ("id", .i64 9), ("note", .text ""), ("seen", .dateTime ⟨0⟩), ("left", .null)] := rfl
    have hkind : ¬Unsupported field.kind := by
      simp only [derivedModel, DerivedModel.info, visitModel, visitMembers, List.filterMap_cons, Member.field?,
        List.filterMap_nil, List.map_cons, List.map_nil, List.mem_cons, List.not_mem_nil, or_false] at hfield
      rcases hfield with rfl | rfl | rfl | rfl <;> exact id
    have hmem : (field.name, v) ∈ visitModel.fieldValues sameText visit := hv
    rw [hvalues] at hmem
    refine .inr ⟨hkind, ?_⟩
    rintro t rfl
    simp only [List.mem_cons, Prod.mk.injEq, reduceCtorEq, and_false, List.not_mem_nil, or_false, false_or,
      Value.dateTime.injEq] at hmem
    obtain ⟨-, rfl⟩ := hmem
    exact ⟨by decide, by decide⟩

/-! ### A key that cannot be read -/

def ticketMembers : List Member :=
  [.field { ident := "id", columnName := "id", type := .i64, primaryKey := true, auto := true },
    .field { ident := "code", columnName := "code", type := .uuid }]

theorem ticketMembers_idents : (ticketMembers.map Member.ident).Nodup := by decide

theorem ticketMembers_columns : (ticketMembers.map Member.columnName).Nodup := by decide

def ticketModel : DerivedModel where
  structName := "Ticket"
  appLabel := "hotel"
  tableName := "hotel_ticket"
  members := ticketMembers
  idents_nodup := ticketMembers_idents
  columns_nodup := ticketMembers_columns
  one_pk := ⟨_, rfl⟩

def ticket : Object String := [("id", .int 1), ("code", .parsed "67e55044-10b1-426f-9247-bb680e5fe0c8")]

/-- A ticket with a UUID is serialized, and what it is serialized to is refused. -/
theorem ticket_refused : Conforms (derivedModel sameText ticketModel) ticket ∧
    ¬ReadsBack (derivedModel sameText ticketModel) ticket := by
  constructor
  · refine derived_conforms sameText ticketModel fun member hmember => ?_
    simp only [DerivedModel.modelFields, ticketModel, ticketMembers, List.mem_filter, List.mem_cons, List.not_mem_nil, or_false]
      at hmember
    rcases hmember.1 with rfl | rfl
    · exact ⟨_, rfl, .inr (.i64 ⟨by decide, by decide⟩)⟩
    · exact ⟨_, rfl, .inr (.uuid _)⟩
  · rintro ⟨values, hok, -⟩
    cases hok

end Djangors.Rest
