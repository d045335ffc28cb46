import Djangors.Rest.Serializers
import Djangors.Theorems.WriteScope

/-! # What crosses the wire

A serializer puts the entry of a name where the name says, whatever its value is: so instances that differ in hidden
fields only give the same entries once the hidden names are dropped. In the other direction, the values of a body are
kept when their names are writable, and the columns that are written are theirs. -/

namespace Djangors.Rest
open Orm

/-! ### Field sets -/

namespace FieldSet
variable {fields : FieldSet} {name : String}

/-- A field that is not shown: it is excluded, write-only, or not among the only ones. -/
def Hidden (fields : FieldSet) (name : String) : Prop :=
  name ∈ fields.exclude ∨ name ∈ fields.writeOnly ∨ fields.only ≠ [] ∧ name ∉ fields.only

/-- A field that is not taken from a body: it is excluded, read-only, or not among the only ones. -/
def Closed (fields : FieldSet) (name : String) : Prop :=
  name ∈ fields.exclude ∨ name ∈ fields.readOnly ∨ fields.only ≠ [] ∧ name ∉ fields.only

theorem inScope_iff : fields.inScope name = true ↔ name ∉ fields.exclude ∧ (fields.only = [] ∨ name ∈ fields.only) := by
  rw [inScope]
  split
  · rename_i h
    simp only [h, not_true, false_and, Bool.false_eq_true]
  · rename_i h
    simp only [h, not_false_eq_true, true_and, Bool.or_eq_true, List.isEmpty_iff, decide_eq_true_eq]

theorem isReadable_iff : fields.isReadable name = true ↔ ¬fields.Hidden name := by
  rw [isReadable, Bool.and_eq_true, inScope_iff, Hidden, Bool.not_eq_true', decide_eq_false_iff_not]
  tauto

theorem isWritable_iff : fields.isWritable name = true ↔ ¬fields.Closed name := by
  rw [isWritable, Bool.and_eq_true, inScope_iff, Closed, Bool.not_eq_true', decide_eq_false_iff_not]
  tauto

end FieldSet

/-! ### Entries -/

section Entries
variable {φ α : Type} {hidden : String → Prop} {name : List Char} {value value' : Json φ}
  {entries entries' : List (List Char × Json φ)}

/-- Two lists of named values differ in hidden ones only. -/
def DifferOnly (hidden : String → Prop) (xs ys : List (String × α)) : Prop :=
  List.Forall₂ (fun x y => x.1 = y.1 ∧ (x.2 = y.2 ∨ hidden x.1)) xs ys

/-- Two lists of entries differ in hidden ones only. -/
def EntriesDiffer (hidden : String → Prop) (entries entries' : List (List Char × Json φ)) : Prop :=
  List.Forall₂ (fun e e' => e.1 = e'.1 ∧ (e.2 = e'.2 ∨ hidden (String.ofList e.1))) entries entries'

/-- Where an entry goes depends on the names. -/
theorem insertEntry_differ (h : EntriesDiffer hidden entries entries')
    (hvalue : value = value' ∨ hidden (String.ofList name)) :
    EntriesDiffer hidden (Json.insertEntry name value entries) (Json.insertEntry name value' entries') := by
  induction h with
  | nil => exact .cons ⟨rfl, hvalue⟩ .nil
  | @cons e e' es es' hhead htail ih =>
    obtain ⟨hname, hrest⟩ := hhead
    rw [Json.insertEntry, Json.insertEntry, hname]
    split
    · exact .cons ⟨rfl, hvalue⟩ htail
    · split
      · exact .cons ⟨rfl, hvalue⟩ (.cons ⟨hname, hrest⟩ htail)
      · exact .cons ⟨hname, hrest⟩ ih

theorem filter_differ {keep : List Char × Json φ → Bool} (h : EntriesDiffer hidden entries entries')
    (hkeep : ∀ e e' : List Char × Json φ, e.1 = e'.1 → keep e = keep e')
    (hhidden : ∀ e, keep e = true → ¬hidden (String.ofList e.1)) : entries.filter keep = entries'.filter keep := by
  induction h with
  | nil => rfl
  | @cons e e' es es' hhead htail ih =>
    obtain ⟨hname, hrest⟩ := hhead
    rw [List.filter_cons, List.filter_cons, ← hkeep e e' hname, ih]
    split
    · rename_i h
      rw [Prod.ext hname (hrest.resolve_right (hhidden e h))]
    · rfl

theorem mem_insertEntry {e : List Char × Json φ} (h : e ∈ Json.insertEntry name value entries) :
    e = (name, value) ∨ e ∈ entries := by
  induction entries with
  | nil => exact .inl (List.mem_singleton.mp h)
  | cons e' entries ih =>
    rw [Json.insertEntry] at h
    split at h
    · rcases List.mem_cons.mp h with h | h
      · exact .inl h
      · exact .inr (List.mem_cons_of_mem _ h)
    · split at h
      · exact (List.mem_cons.mp h).imp id id
      · rcases List.mem_cons.mp h with h | h
        · exact .inr (List.mem_cons.mpr (.inl h))
        · exact (ih h).imp id (List.mem_cons_of_mem _)

end Entries

/-! ### Representations -/

/-- A value without objects. -/
inductive Plain {φ : Type} : Json φ → Prop
  | null : Plain .null
  | bool (b : Bool) : Plain (.bool b)
  | int (n : Int) : Plain (.int n)
  | float (x : φ) : Plain (.float x)
  | string (s : List Char) : Plain (.string s)
  | array {items : List (Json φ)} (plain : ∀ item ∈ items, Plain item) : Plain (.array items)

/-- An object of plain values whose names are not hidden. -/
def Shows {φ : Type} (hidden : String → Prop) (json : Json φ) : Prop :=
  ∃ entries, json = .object entries ∧ ∀ e ∈ entries, ¬hidden (String.ofList e.1) ∧ Plain e.2

section Representations
variable [Wire] {m r : Model}

theorem valuesToJson_eq (values : List Value) : valuesToJson values = values.map valueToJson := by
  induction values with
  | nil => rfl
  | cons value values ih => rw [valuesToJson, ih, List.map_cons]

theorem valueToJson_plain (value : Value) : Plain (valueToJson value) := by
  induction value using Value.ind with
  | i64 n => exact .int n
  | f64 x =>
    rw [valueToJson]
    split
    · exact .float x
    · exact .null
  | text s => exact .string _
  | bool b => exact .bool b
  | dateTime t => exact .string _
  | null => exact .null
  | list items ih =>
    rw [valueToJson, valuesToJson_eq]
    refine .array fun item hitem => ?_
    obtain ⟨value, hvalue, rfl⟩ := List.mem_map.mp hitem
    exact ih value hvalue

theorem insertValues_differ {hidden : String → Prop} {xs ys : List (String × Value)}
    {entries entries' : List (List Char × Json F64)} (h : DifferOnly hidden xs ys) (hentries : EntriesDiffer hidden entries entries') :
    EntriesDiffer hidden (insertValues xs entries) (insertValues ys entries') := by
  induction h generalizing entries entries' with
  | nil => exact hentries
  | @cons x y xs ys hhead htail ih =>
    obtain ⟨hname, hrest⟩ := hhead
    refine ih (?_ : EntriesDiffer hidden (Json.insertEntry x.1.toList _ entries) (Json.insertEntry y.1.toList _ entries'))
    rw [← hname]
    refine insertEntry_differ hentries ?_
    rw [String.ofList_toList]
    exact hrest.imp (congrArg valueToJson) id

theorem insertValues_plain {xs : List (String × Value)} {entries : List (List Char × Json F64)}
    (h : ∀ e ∈ entries, Plain e.2) : ∀ e ∈ insertValues xs entries, Plain e.2 := by
  induction xs generalizing entries with
  | nil => exact h
  | cons x xs ih =>
    refine ih fun e he => ?_
    rcases mem_insertEntry he with rfl | he
    · exact valueToJson_plain x.2
    · exact h e he

/-- A representation is an object of the readable entries. -/
theorem toRepresentation_eq (s : Serializer m) (x : m.Instance) : s.toRepresentation x =
    .object ((serialize m x).filter fun entry => s.fields.isReadable (String.ofList entry.1)) := by
  induction s with
  | model fields validators => rfl
  | nested base relation inner ih => exact ih x

theorem toRepresentation_shows (s : Serializer m) (x : m.Instance) : Shows s.fields.Hidden (s.toRepresentation x) := by
  refine ⟨_, toRepresentation_eq s x, fun e he => ?_⟩
  obtain ⟨hmem, hreadable⟩ := List.mem_filter.mp he
  exact ⟨FieldSet.isReadable_iff.mp hreadable, insertValues_plain (fun _ hnil => absurd hnil List.not_mem_nil) e hmem⟩

/-- Instances that differ in hidden fields only look alike. -/
theorem toRepresentation_congr (s : Serializer m) {x y : m.Instance}
    (h : DifferOnly s.fields.Hidden (m.fieldValues x) (m.fieldValues y)) : s.toRepresentation x = s.toRepresentation y := by
  rw [toRepresentation_eq, toRepresentation_eq]
  refine congrArg Json.object (filter_differ (insertValues_differ h .nil) (fun e e' hname => ?_) fun e he => ?_)
  · rw [hname]
  · exact FieldSet.isReadable_iff.mp he

omit [Wire] in
theorem mem_replaceEntry {entries : List (List Char × Json F64)} {related : String × Json F64} {e : List Char × Json F64}
    (h : e ∈ replaceEntry entries related) :
    e ∈ entries ∨ e = (related.1.toList, related.2) ∧ ∃ old ∈ entries, old.1 = e.1 := by
  rw [replaceEntry] at h
  split at h
  · rename_i hfound
    obtain ⟨value, hvalue⟩ := List.lookup_isSome_iff.mp hfound
    rcases mem_insertEntry h with rfl | h
    · exact .inr ⟨rfl, value, hvalue.1, (beq_iff_eq.mp hvalue.2).symm⟩
    · exact .inl h
  · exact .inl h

omit [Wire] in
/-- Related objects take the places of entries that are there. -/
theorem mem_replaceEntries {entries : List (List Char × Json F64)} {related : List (String × Json F64)}
    {e : List Char × Json F64} (h : e ∈ related.foldl replaceEntry entries) :
    (∃ old ∈ entries, old.1 = e.1) ∧ (e ∈ entries ∨ (String.ofList e.1, e.2) ∈ related) := by
  induction related generalizing entries with
  | nil => exact ⟨⟨e, h, rfl⟩, .inl h⟩
  | cons first related ih =>
    obtain ⟨⟨old, hold, hname⟩, hcases⟩ := ih h
    refine ⟨?_, ?_⟩
    · rcases mem_replaceEntry hold with hold | ⟨-, before, hbefore, hsame⟩
      · exact ⟨old, hold, hname⟩
      · exact ⟨before, hbefore, hsame.trans hname⟩
    · rcases hcases with hmem | hmem
      · rcases mem_replaceEntry hmem with hmem | ⟨rfl, -⟩
        · exact .inl hmem
        · exact .inr (List.mem_cons.mpr (.inl (by rw [String.ofList_toList])))
      · exact .inr (List.mem_cons_of_mem _ hmem)

/-- Related objects are embedded under names that are shown already. -/
theorem toRepresentationNested_shows (s : Serializer m) (x : m.Instance) (related : List (String × Json F64)) :
    ∃ entries, s.toRepresentationNested x related = .object entries ∧ ∀ e ∈ entries,
      ¬s.fields.Hidden (String.ofList e.1) ∧ (Plain e.2 ∨ (String.ofList e.1, e.2) ∈ related) := by
  obtain ⟨entries, heq, hshown⟩ := toRepresentation_shows s x
  rw [Serializer.toRepresentationNested, heq]
  refine ⟨_, rfl, fun e he => ?_⟩
  obtain ⟨⟨old, hold, hname⟩, hcases⟩ := mem_replaceEntries he
  refine ⟨hname ▸ (hshown old hold).1, hcases.imp_left fun hmem => (hshown e hmem).2⟩

/-- A related object is embedded as its own serializer shows it. -/
theorem render_shows (base : Serializer m) (relation : String) (inner : Serializer r) (x : m.Instance)
    (related : Option r.Instance) :
    ∃ entries, base.render relation inner x related = .object entries ∧ ∀ e ∈ entries,
      ¬base.fields.Hidden (String.ofList e.1) ∧ (Plain e.2 ∨ e.1 = relation.toList ∧ Shows inner.fields.Hidden e.2) := by
  cases related with
  | none =>
    obtain ⟨entries, heq, hshown⟩ := toRepresentation_shows base x
    exact ⟨entries, heq, fun e he => (hshown e he).imp_right .inl⟩
  | some related =>
    obtain ⟨entries, heq, hshown⟩ := toRepresentationNested_shows base x [(relation, inner.toRepresentation related)]
    refine ⟨entries, heq, fun e he => (hshown e he).imp_right fun hcases => hcases.imp_right fun hmem => ?_⟩
    obtain ⟨hname, hvalue⟩ := Prod.mk.inj (List.mem_singleton.mp hmem)
    exact ⟨by rw [← hname, String.toList_ofList], hvalue ▸ toRepresentation_shows inner related⟩

theorem toRepresentationNested_congr (s : Serializer m) {x y : m.Instance} (related : List (String × Json F64))
    (h : DifferOnly s.fields.Hidden (m.fieldValues x) (m.fieldValues y)) :
    s.toRepresentationNested x related = s.toRepresentationNested y related := by
  rw [Serializer.toRepresentationNested, Serializer.toRepresentationNested, toRepresentation_congr s h]

theorem render_congr (base : Serializer m) (relation : String) (inner : Serializer r) {x y : m.Instance}
    {p q : Option r.Instance} (h : DifferOnly base.fields.Hidden (m.fieldValues x) (m.fieldValues y))
    (hrelated : Option.Rel (fun p q => DifferOnly inner.fields.Hidden (r.fieldValues p) (r.fieldValues q)) p q) :
    base.render relation inner x p = base.render relation inner y q := by
  cases hrelated with
  | none => exact toRepresentation_congr base h
  | some hrelated =>
    rw [Serializer.render, Serializer.render, toRepresentation_congr inner hrelated]
    exact toRepresentationNested_congr base _ h

/-! ### Bodies -/

theorem toInternalValue_open {s : Serializer m} {data : Json F64} {partly : Bool} {values : List (String × Value)}
    (h : s.toInternalValue data partly = .ok values) : ∀ value ∈ values, ¬s.fields.Closed value.1 := by
  induction s with
  | model fields validators =>
    rw [Serializer.toInternalValue] at h
    split at h
    · cases h
    · split at h
      · cases h
        intro value hvalue
        exact FieldSet.isWritable_iff.mp (List.mem_filter.mp hvalue).2
      · cases h
  | nested base relation inner ih => exact ih h

theorem parse_open {s : Serializer m} {data : Json F64} {partly : Bool} {values : List (String × Value)}
    (h : s.parse data partly = .ok values) : ∀ value ∈ values, ¬s.fields.Closed value.1 := by
  rw [Serializer.parse] at h
  split at h
  · cases h
  · rename_i hvalues
    simp only at h
    split at h
    · cases h
      exact toInternalValue_open hvalues
    · cases h

end Representations

/-! ### Columns -/

section Columns
variable {m : ModelMeta} {values : List (String × Value)}

/-- The columns that an `INSERT` gives values. -/
def columnsOf (insert : Insert) : List String :=
  match insert.source with
  | .defaultValues => []
  | .values cols _ => cols

theorem insertColumn_column {value : String × Value} {col : String} {bind : Db.BindValue}
    (h : QuerySet.insertColumn m value = .ok (some (col, bind))) : fieldToCol m value.1 = .column col := by
  unfold QuerySet.insertColumn at h
  unfold fieldToCol
  cases hfield : m.field? value.1 with
  | some field =>
    rw [hfield] at h
    cases hauto : field.auto with
    | true => simp only [hauto, if_true, Except.ok.injEq, reduceCtorEq] at h
    | false =>
      simp only [hauto, Bool.false_eq_true, if_false, Except.ok.injEq, Option.some.injEq, Prod.mk.injEq] at h
      exact congrArg Sql.ColRef.column h.1
  | none =>
    rw [hfield] at h
    cases hrelation : m.relation? value.1 with
    | some relation =>
      simp only [hrelation, Except.ok.injEq, Option.some.injEq, Prod.mk.injEq] at h
      exact congrArg Sql.ColRef.column h.1
    | none => simp only [hrelation, reduceCtorEq] at h

theorem compileSets_columns (sets : List (String × SetExpr)) (idx : Nat) :
    ∀ assign ∈ (QuerySet.compileSets m sets idx).1, ∃ set ∈ sets, assign.lhs = fieldToCol m set.1 := by
  induction sets generalizing idx with
  | nil => exact fun _ hnil => absurd hnil List.not_mem_nil
  | cons set sets ih =>
    intro assign hassign
    rcases List.mem_cons.mp hassign with rfl | hassign
    · exact ⟨set, List.mem_cons_self, rfl⟩
    · obtain ⟨other, hother, hlhs⟩ := ih (idx + 1) assign hassign
      exact ⟨other, List.mem_cons_of_mem _ hother, hlhs⟩

/-- An `INSERT` writes columns of the fields that have values. -/
theorem insertRaw_columns {insert : Insert} (h : QuerySet.insertRaw m values = .ok insert) :
    ∀ col ∈ columnsOf insert, ∃ value ∈ values, fieldToCol m value.1 = .column col := by
  rw [QuerySet.insertRaw] at h
  split at h
  · cases h
  · obtain ⟨processed, hprocessed, h⟩ := Except.bind_eq_ok.mp h
    cases h
    intro col hcol
    rw [columnsOf] at hcol
    simp only at hcol
    split at hcol
    · cases hcol
    · rename_i hsource
      split at hsource
      · cases hsource
      · cases hsource
        obtain ⟨entry, hentry, rfl⟩ := List.mem_map.mp hcol
        obtain ⟨found, hfound, heq⟩ := List.mem_filterMap.mp hentry
        cases heq
        obtain ⟨value, hvalue, hcolumn⟩ := Except.exists_of_mem_mapM hprocessed hfound
        exact ⟨value, hvalue, insertColumn_column hcolumn⟩

/-- An `UPDATE` writes columns of the fields that have values. -/
theorem update_columns [Fmt] {qs : QuerySet m} {d : Db.Dialect} {sets : List (String × SetExpr)} {update : Update}
    (h : qs.update d sets = .ok update) : ∀ assign ∈ update.sets, ∃ set ∈ sets, assign.lhs = fieldToCol m set.1 := by
  obtain ⟨-, -, h⟩ := Except.bind_eq_ok.mp h
  cases h
  exact compileSets_columns sets 1

end Columns

/-- What crosses the wire is governed by the field set. Representations, nested ones too, of instances that differ in
    hidden fields are the same, and show no hidden field; and a body gives values for open fields only, so that an
    `INSERT` or `UPDATE` of them writes no column but those of open fields. -/
theorem fields_governed [Wire] [Fmt] {m r : Model} (s : Serializer m) (inner : Serializer r) :
    (∀ x y, DifferOnly s.fields.Hidden (m.fieldValues x) (m.fieldValues y) →
      s.toRepresentation x = s.toRepresentation y ∧
      (∀ related, s.toRepresentationNested x related = s.toRepresentationNested y related) ∧
      ∀ relation p q, Option.Rel (fun p q => DifferOnly inner.fields.Hidden (r.fieldValues p) (r.fieldValues q)) p q →
        s.render relation inner x p = s.render relation inner y q) ∧
    (∀ x, Shows s.fields.Hidden (s.toRepresentation x) ∧
      ∀ relation related, ∃ entries, s.render relation inner x related = .object entries ∧ ∀ e ∈ entries,
        ¬s.fields.Hidden (String.ofList e.1) ∧ (Plain e.2 ∨ e.1 = relation.toList ∧ Shows inner.fields.Hidden e.2)) ∧
    ∀ data partly values, s.parse data partly = .ok values →
      (∀ value ∈ values, ¬s.fields.Closed value.1) ∧
      (∀ insert, QuerySet.insertRaw m.info values = .ok insert →
        ∀ col ∈ columnsOf insert, ∃ name, ¬s.fields.Closed name ∧ fieldToCol m.info name = .column col) ∧
      ∀ (qs : QuerySet m.info) d update, qs.update d (values.map fun value => (value.1, .literal value.2)) = .ok update →
        ∀ assign ∈ update.sets, ∃ name, ¬s.fields.Closed name ∧ assign.lhs = fieldToCol m.info name := by
  refine ⟨fun x y h => ⟨toRepresentation_congr s h, fun related => toRepresentationNested_congr s related h,
    fun relation p q hrelated => render_congr s relation inner h hrelated⟩,
    fun x => ⟨toRepresentation_shows s x, fun relation related => render_shows s relation inner x related⟩, ?_⟩
  intro data partly values h
  have hopen := parse_open h
  refine ⟨hopen, fun insert hinsert col hcol => ?_, fun qs d update hupdate assign hassign => ?_⟩
  · obtain ⟨value, hvalue, hcolumn⟩ := insertRaw_columns hinsert col hcol
    exact ⟨value.1, hopen value hvalue, hcolumn⟩
  · obtain ⟨set, hset, hlhs⟩ := update_columns hupdate assign hassign
    obtain ⟨value, hvalue, rfl⟩ := List.mem_map.mp hset
    exact ⟨value.1, hopen value hvalue, hlhs⟩

end Djangors.Rest
