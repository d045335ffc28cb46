import Djangors.Orm.Derive
import Djangors.Lib.Lists
import Djangors.Theorems.Terminals

/-! # Values and instances of one row

`values` decodes a column by the kind of its field, `from_row` by the type of the struct. They agree except on what an
`i32` or `f32` rounds, and on dates, times, durations, UUIDs and decimals, which `values` reads as integers. -/

namespace Djangors

theorem asI32_eq_self_iff {n : Int} : asI32 n = n ↔ -2147483648 ≤ n ∧ n ≤ 2147483647 := by
  constructor
  · intro h
    have hlow := (Int32.ofInt n).le_toInt
    have hhigh := (Int32.ofInt n).toInt_lt
    rw [show (Int32.ofInt n).toInt = n from h] at hlow hhigh
    exact ⟨by omega, by omega⟩
  · rintro ⟨hlow, hhigh⟩
    have hsize : Int32.size = 4294967296 := rfl
    rw [asI32, Int32.toInt_ofInt, hsize]
    exact Int.bmod_eq_of_le (by omega) (by omega)

end Djangors

namespace Djangors.Orm
open Db Sql

/-! ### Members -/

section Members
variable {ρ : Type} {G : TryGet} {T : TextTypes ρ} {member : Member} {c : Cell} {held : Held ρ}

/-- The types that are stored as text. -/
def FieldType.isParsed : FieldType → Bool
  | .naiveDate | .naiveTime | .duration | .uuid | .decimal _ _ => true
  | _ => false

/-- The type of a member holds what its column holds, and `values` can read the column. -/
def Member.Exact (G : TryGet) (member : Member) (c : Cell) : Prop :=
  match member.type with
  | .i32 => ∀ n, G.tryI64 c = .ok (some n) → -2147483648 ≤ n ∧ n ≤ 2147483647
  | .f32 => ∀ x, G.tryF64 c = .ok (some x) → x.asF32 = x
  | .naiveDate | .naiveTime | .duration | .uuid | .decimal _ _ => c = .null
  | _ => True

/-- The kind that `values` decodes a member by. -/
def Member.kind : Member → Option FieldKind
  | .field f => some f.kindToken
  | .relation _ => none

theorem read_ok {α : Type} {f : DerivedField} {result : Except OrmError (Option α)} {hold : α → Except OrmError (Held ρ)}
    (h : f.read result hold = .ok held) :
    (∃ v, result = .ok (some v) ∧ hold v = .ok held) ∨ result = .ok none ∧ held = .absent := by
  rw [DerivedField.read] at h
  obtain ⟨found, hfound, h⟩ := Except.bind_eq_ok.mp h
  cases found with
  | some v => exact .inl ⟨v, hfound, h⟩
  | none =>
    dsimp only at h
    split at h
    · exact .inr ⟨hfound, (Except.ok.inj h).symm⟩
    · cases h

/-- Where both read a column with one getter, they agree when the instance holds what is read. -/
theorem read_agree_iff {α : Type} {f : DerivedField} {result : Except OrmError (Option α)} {hold : α → Held ρ}
    (value : α → Value) (type : FieldType) (hnull : result = .ok none → c = .null) (hvalue : ∀ v, value v ≠ .null)
    (h : f.read result (fun v => .ok (hold v)) = .ok held) :
    (valueOr value result = held.value T type ∧ (c ≠ .null → valueOr value result ≠ .null)) ↔
      ∀ v, result = .ok (some v) → value v = (hold v).value T type := by
  rcases read_ok h with ⟨v, hv, hheld⟩ | ⟨hnone, rfl⟩
  · obtain rfl := Except.ok.inj hheld
    rw [hv, valueOr]
    constructor
    · rintro ⟨heq, -⟩ w hw
      cases hw
      exact heq
    · intro hall
      exact ⟨hall v rfl, fun _ => hvalue v⟩
  · rw [hnone]
    exact ⟨fun _ => nofun, fun _ => ⟨rfl, fun hne => absurd (hnull hnone) hne⟩⟩

/-- A getter that never returns a text does not read a column of texts. -/
theorem parsed_iff {f : DerivedField} (law : LawfulGet G) {parse : String → Except String ρ} {format : ρ → String}
    {parseError : String → OrmError} {type : FieldType} (hformat : ∀ v, (Held.parsed v).value T type = .text (format v))
    (h : f.read (G.string c) (fun s => match parse s with
      | .ok v => .ok (.parsed v)
      | .error e => if f.nullable then .ok .absent else .error (parseError e)) = .ok held) :
    (valueOr .i64 (G.tryI64 c) = held.value T type ∧ (c ≠ .null → valueOr .i64 (G.tryI64 c) ≠ .null)) ↔ c = .null := by
  have hread : c = .null → valueOr Value.i64 (G.tryI64 c) = .null := fun hc => by rw [(law.i64_null c).mpr hc]; rfl
  rcases read_ok h with ⟨s, hs, hheld⟩ | ⟨hnone, rfl⟩
  · have hc : c ≠ .null := fun hc => by
      rw [(law.string_null c).mpr hc] at hs
      cases hs
    refine ⟨?_, fun hnull => absurd hnull hc⟩
    rintro ⟨heq, hstored⟩
    have hne := hstored hc
    cases hparse : parse s with
    | ok v =>
      rw [hparse] at hheld
      obtain rfl := Except.ok.inj hheld
      rw [hformat, valueOr.eq_def] at heq
      split at heq <;> cases heq
    | error e =>
      rw [hparse] at hheld
      dsimp only at hheld
      split at hheld
      · obtain rfl := Except.ok.inj hheld
        exact absurd heq hne
      · cases hheld
  · have hc := (law.string_null c).mp hnone
    exact ⟨fun _ => hc, fun _ => ⟨hread hc, fun hne => absurd hc hne⟩⟩

theorem Member.exact_iff (law : LawfulGet G) (h : member.fromColumn G T c = .ok held) :
    (decodeValue G c member.kind = held.value T member.type ∧ (c ≠ .null → decodeValue G c member.kind ≠ .null)) ↔
      member.Exact G c := by
  cases member with
  | relation r =>
    rw [Member.fromColumn] at h
    obtain ⟨found, hfound, h⟩ := Except.bind_eq_ok.mp h
    cases found with
    | some n =>
      obtain rfl := Except.ok.inj h
      have hdecode : decodeValue G c (Member.relation r).kind = .i64 n := congrArg (valueOr .i64) hfound
      rw [hdecode]
      exact ⟨fun _ => trivial, fun _ => ⟨rfl, fun _ => Value.noConfusion⟩⟩
    | none => cases h
  | field f =>
    rw [Member.fromColumn, DerivedField.fromColumn] at h
    rw [Member.Exact, Member.type, Member.kind, DerivedField.kindToken]
    cases htype : f.type with
    | string =>
      rw [htype] at h
      have hdecode : decodeValue G c (some (if f.fileField then .fileField else if f.maxLength.isSome then .char else .text)) =
          valueOr .text (G.string c) := by
        split
        · rfl
        · split <;> rfl
      dsimp only
      rw [hdecode]
      refine (read_agree_iff .text .string (law.string_null c).mp (fun _ => Value.noConfusion) h).trans ?_
      exact ⟨fun _ => trivial, fun _ _ _ => rfl⟩
    | i64 =>
      rw [htype] at h
      exact (read_agree_iff .i64 .i64 (law.i64_null c).mp (fun _ => Value.noConfusion) h).trans ⟨fun _ => trivial, fun _ _ _ => rfl⟩
    | i32 =>
      rw [htype] at h
      refine (read_agree_iff .i64 .i32 (law.i64_null c).mp (fun _ => Value.noConfusion) h).trans (forall₂_congr fun n _ => ?_)
      rw [← asI32_eq_self_iff]
      exact ⟨fun heq => (Value.i64.inj heq).symm, fun heq => congrArg Value.i64 heq.symm⟩
    | f64 =>
      rw [htype] at h
      exact (read_agree_iff .f64 .f64 (law.f64_null c).mp (fun _ => Value.noConfusion) h).trans ⟨fun _ => trivial, fun _ _ _ => rfl⟩
    | f32 =>
      rw [htype] at h
      refine (read_agree_iff .f64 .f32 (law.f64_null c).mp (fun _ => Value.noConfusion) h).trans (forall₂_congr fun x _ => ?_)
      exact ⟨fun heq => (Value.f64.inj heq).symm, fun heq => congrArg Value.f64 heq.symm⟩
    | bool =>
      rw [htype] at h
      exact (read_agree_iff .bool .bool (law.bool_null c).mp (fun _ => Value.noConfusion) h).trans ⟨fun _ => trivial, fun _ _ _ => rfl⟩
    | dateTime =>
      rw [htype] at h
      refine (read_agree_iff .dateTime .dateTime (law.dateTime_null c).mp (fun _ => Value.noConfusion) h).trans ?_
      exact ⟨fun _ => trivial, fun _ _ _ => rfl⟩
    | naiveDate | naiveTime | duration | uuid | decimal _ _ =>
      rw [htype] at h
      exact parsed_iff law (fun _ => rfl) h

end Members

/-! ### Rows -/

section Rows
variable {ρ : Type} {G : TryGet} {T : TextTypes ρ} {M : DerivedModel} {r : Row Cell} {object : Object ρ} {member : Member}

theorem modelFields_nodup : (M.modelFields.map Member.ident).Nodup := M.idents_nodup.sublist (List.filter_sublist.map _)

theorem Member.fromRow_ok {entry : String × Held ρ} (h : member.fromRow G T r = .ok entry) :
    ∃ c held, r.lookup member.columnName = some c ∧ member.fromColumn G T c = .ok held ∧ entry = (member.ident, held) := by
  rw [Member.fromRow] at h
  split at h
  · cases h
  · rename_i c hc
    cases hheld : member.fromColumn G T c with
    | error e =>
      rw [hheld] at h
      cases h
    | ok held =>
      rw [hheld] at h
      exact ⟨c, held, hc, hheld, (Except.ok.inj h).symm⟩

/-- A member of an instance holds what is read from its column. -/
theorem fromRow_member (h : M.fromRow G T r = .ok object) (hmember : member ∈ M.modelFields) :
    ∃ c held, r.lookup member.columnName = some c ∧ member.fromColumn G T c = .ok held ∧
      object.lookup member.ident = some held := by
  have hidents : object.map (·.1) = M.modelFields.map Member.ident := by
    rw [DerivedModel.fromRow, Except.mapM_eq_ok] at h
    have heq : List.Forall₂ (fun member entry => Member.ident member = Prod.fst entry) M.modelFields object :=
      h.imp fun member entry h => by
        obtain ⟨_, _, _, _, rfl⟩ := Member.fromRow_ok h
        rfl
    exact (List.forall₂_eq_eq_eq ▸ List.forall₂_map_left_iff.mpr (List.forall₂_map_right_iff.mpr heq)).symm
  obtain ⟨entry, hentry, hfound⟩ := Except.exists_mapM_of_mem h hmember
  obtain ⟨c, held, hc, hheld, rfl⟩ := Member.fromRow_ok hfound
  exact ⟨c, held, hc, hheld, List.lookup_of_mem (hidents ▸ modelFields_nodup) hentry⟩

theorem lookup_fieldValues (hmember : member ∈ M.modelFields) {held : Held ρ} (h : object.lookup member.ident = some held) :
    (M.fieldValues T object).lookup member.ident = some (held.value T member.type) := by
  refine List.lookup_of_mem ?_ (List.mem_map.mpr ⟨member, hmember, ?_⟩)
  · rw [DerivedModel.fieldValues, List.map_map]
    exact modelFields_nodup
  · rw [h]
    rfl

/-- The metadata has a field of the name of a member exactly when the member is a field. -/
theorem field?_member (hmember : member ∈ M.members) : M.info.field? member.ident = member.field?.map DerivedField.info := by
  have hident {member : Member} {f : DerivedField} (hf : member.field? = some f) : member = .field f := by
    cases member with
    | field g => exact congrArg Member.field (Option.some.inj hf)
    | relation r => cases hf
  have hfields {f : DerivedField} : f ∈ M.members.filterMap Member.field? ↔ .field f ∈ M.members := by
    rw [List.mem_filterMap]
    exact ⟨fun ⟨member, hmember, hf⟩ => hident hf ▸ hmember, fun h => ⟨_, h, rfl⟩⟩
  have hne : M.members.Pairwise fun a b => a.ident ≠ b.ident := List.pairwise_map.mp M.idents_nodup
  have hnodup : (M.info.fields.map (·.name)).Nodup := by
    rw [DerivedModel.info, List.map_map, List.Nodup, List.pairwise_map]
    refine hne.filterMap _ fun a b hab f hf g hg => ?_
    rw [hident hf, hident hg] at hab
    exact hab
  cases member with
  | field f =>
    exact (List.find?_key_eq_some hnodup).mpr ⟨List.mem_map_of_mem (hfields.mpr hmember), rfl⟩
  | relation r =>
    refine List.find?_key_eq_none.mpr fun hmem => ?_
    rw [DerivedModel.info, List.map_map] at hmem
    obtain ⟨f, hf, heq⟩ := List.mem_map.mp hmem
    have hsame := List.inj_on_of_nodup_map M.idents_nodup (hfields.mp hf) hmember heq
    cases hsame

theorem valuesColumn_member (hmember : member ∈ M.members) : valuesColumn M.info member.ident = member.columnName := by
  rw [valuesColumn, field?_member hmember]
  cases member <;> rfl

theorem fieldKindOf_member (hmember : member ∈ M.members) : fieldKindOf member.ident M.info = member.kind := by
  rw [fieldKindOf, field?_member hmember]
  cases member <;> rfl

/-- `values` of some fields returns for a row what its instance has for them, and no stored value as NULL. -/
structure Projects (G : TryGet) (T : TextTypes ρ) (M : DerivedModel) (r : Row Cell) (object : Object ρ) (fields : List String) :
    Prop where
  entries : valuesRow G M.info fields r = fields.map fun name => (name, ((M.fieldValues T object).lookup name).getD .null)
  stored : ∀ name ∈ fields, (r.lookup (valuesColumn M.info name)).getD .null ≠ .null →
    ((valuesRow G M.info fields r).lookup name).getD .null ≠ .null

theorem lookup_valuesRow {fields : List String} {name : String} (h : name ∈ fields) :
    (valuesRow G M.info fields r).lookup name =
      some (decodeValue G ((r.lookup (valuesColumn M.info name)).getD .null) (fieldKindOf name M.info)) := by
  rw [valuesRow]
  induction fields with
  | nil => cases h
  | cons field fields ih =>
    rw [List.map_cons, List.lookup_cons]
    by_cases heq : name = field
    · rw [heq, beq_self_eq_true]
    · rw [beq_eq_false_iff_ne.mpr heq]
      exact ih ((List.mem_cons.mp h).resolve_left heq)

/-- `values` agrees with the instance of a row exactly when each of the columns is read exactly. -/
theorem projects_iff (law : LawfulGet G) (hrow : M.fromRow G T r = .ok object) {fields : List String}
    (hfields : ∀ name ∈ fields, name ∈ M.modelFields.map Member.ident) :
    Projects G T M r object fields ↔
      ∀ member ∈ M.modelFields, member.ident ∈ fields → member.Exact G ((r.lookup member.columnName).getD .null) := by
  have hone (member : Member) (hmember : member ∈ M.modelFields) :
      (decodeValue G ((r.lookup (valuesColumn M.info member.ident)).getD .null) (fieldKindOf member.ident M.info) =
          ((M.fieldValues T object).lookup member.ident).getD .null ∧
        ((r.lookup (valuesColumn M.info member.ident)).getD .null ≠ .null →
          decodeValue G ((r.lookup (valuesColumn M.info member.ident)).getD .null) (fieldKindOf member.ident M.info) ≠ .null)) ↔
        member.Exact G ((r.lookup member.columnName).getD .null) := by
    have hmem := List.mem_of_mem_filter hmember
    obtain ⟨c, held, hc, hheld, hobject⟩ := fromRow_member hrow hmember
    rw [valuesColumn_member hmem, fieldKindOf_member hmem, lookup_fieldValues hmember hobject, hc]
    exact Member.exact_iff law hheld
  constructor
  · rintro ⟨hentries, hstored⟩ member hmember hin
    refine (hone member hmember).mp ⟨?_, fun hne => ?_⟩
    · have hentry := List.map_inj_left.mp hentries member.ident hin
      exact congrArg Prod.snd hentry
    · have hnull := hstored member.ident hin hne
      rwa [lookup_valuesRow hin] at hnull
  · intro hexact
    have hname (name : String) (hin : name ∈ fields) : ∃ member ∈ M.modelFields, member.ident = name :=
      List.mem_map.mp (hfields name hin)
    refine ⟨List.map_congr_left fun name hin => ?_, fun name hin hne => ?_⟩
    · obtain ⟨member, hmember, rfl⟩ := hname name hin
      exact congrArg (Prod.mk member.ident) ((hone member hmember).mpr (hexact member hmember hin)).1
    · obtain ⟨member, hmember, rfl⟩ := hname name hin
      rw [lookup_valuesRow hin]
      exact ((hone member hmember).mpr (hexact member hmember hin)).2 hne

end Rows

/-! ### Events -/

def eventMembers : List Member :=
  [.field { ident := "id", columnName := "id", type := .i64, primaryKey := true, auto := true },
    .field { ident := "seats", columnName := "seats", type := .i32 },
    .field { ident := "price", columnName := "price", type := .f32, nullable := true },
    .field { ident := "day", columnName := "day", type := .naiveDate }]

theorem eventMembers_idents : (eventMembers.map Member.ident).Nodup := by decide

theorem eventMembers_columns : (eventMembers.map Member.columnName).Nodup := by decide

def eventModel : DerivedModel where
  structName := "Event"
  appLabel := "hall"
  tableName := "hall_event"
  members := eventMembers
  idents_nodup := eventMembers_idents
  columns_nodup := eventMembers_columns
  one_pk := ⟨_, rfl⟩

/-- Texts that are kept as they are read. -/
def keptTexts : TextTypes String where
  parse _ s := .ok s
  format _ s := s

def eventRow (seats : Int) (day : String) : Row Cell :=
  [("id", .i64 1), ("seats", .i64 seats), ("price", .f64 (.ofBits 0x3ff8000000000000)), ("day", .text day)]

def eventObject (seats : Int) (day : String) : Object String :=
  [("id", .int 1), ("seats", .int seats), ("price", .float (.ofBits 0x3ff8000000000000)), ("day", .parsed day)]

/-- Integers and floats that fit are projected as they are held. -/
theorem event_projected : Projects plainGet keptTexts eventModel (eventRow 120 "2024-05-01") (eventObject 120 "2024-05-01")
    ["price", "seats", "id"] :=
  (projects_iff plainGet_lawful rfl (by decide)).mpr <| by
    intro member hmember hin
    have hmembers : member ∈ eventMembers := hmember
    simp only [eventMembers, List.mem_cons, List.not_mem_nil, or_false] at hmembers
    rcases hmembers with rfl | rfl | rfl | rfl
    · trivial
    · intro n hn
      cases hn
      decide
    · intro x hx
      cases hx
      decide
    · exact absurd hin (by decide)

/-- A date is projected as NULL. -/
theorem day_lost : eventModel.fromRow plainGet keptTexts (eventRow 120 "2024-05-01") = .ok (eventObject 120 "2024-05-01") ∧
    valuesRow plainGet eventModel.info ["day"] (eventRow 120 "2024-05-01") = [("day", .null)] ∧
    (eventModel.fieldValues keptTexts (eventObject 120 "2024-05-01")).lookup "day" = some (.text "2024-05-01") ∧
    ¬Projects plainGet keptTexts eventModel (eventRow 120 "2024-05-01") (eventObject 120 "2024-05-01") ["day"] := by
  refine ⟨rfl, rfl, rfl, fun h => ?_⟩
  have hnull := h.stored "day" (List.mem_singleton_self _)
  exact hnull (by decide) rfl

end Djangors.Orm
