import Djangors.Admin.ChangeForm
import Djangors.Theorems.TenantBreaches
import Djangors.Theorems.CsvExports

/-! # Controls and their texts

A form prints the values of a row and parses the texts that come back. A value comes back from its control when its text
is read as this value, and a field without a control gets what the parser makes of no text. -/

namespace Djangors.Admin
open Db Http Orm Sql
open Migrations (CaseMap)

/-! ### Texts of values -/

/-- The texts of numbers and of times are read back. A text of a time has no fractions of a second. -/
class LawfulTexts [Fmt] [Rest.Parse] : Prop where
  f64_empty : Rest.Parse.f64 "" = none
  f64_display : ∀ x, Rest.Parse.f64 (Fmt.f64Display x) = some x
  naive_empty : Rest.Parse.naive "" = none
  naive_display : ∀ t, Rest.Parse.naive (Fmt.dateTimeDisplay t) = some ⟨t.nanos - t.nanos % 1000000000⟩

/-- Whether the texts of a kind are read. -/
def isRead : FieldKind → Bool
  | .decimal _ _ | .date | .time | .duration | .uuid => false
  | _ => true

/-- Whether the texts of a kind are taken as they are. -/
def isText : FieldKind → Bool
  | .char | .text | .email | .url | .slug | .ip | .binary | .json | .fileField => true
  | _ => false

theorem kind_cases (kind : FieldKind) : kind = .boolean ∨ isText kind = true ∨ (kind = .integer ∨ kind = .bigInt) ∨
    kind = .float ∨ kind = .dateTime ∨ isRead kind = false := by
  cases kind <;> simp [isText, isRead]

/-- What a form without a text for a field gives it. -/
def blank (f : FieldMeta) : Option Value :=
  if f.nullable then some .null else if f.kind = .boolean then some (.bool false) else none

/-- A value that its control gives back. -/
def Printed (f : FieldMeta) (v : Value) : Prop :=
  match f.kind with
  | .boolean => v = .bool true ∨ blank f = some v
  | .char | .text | .email | .url | .slug | .ip | .binary | .json | .fileField => ∃ s, v = .text s ∧ s ≠ ""
  | .integer | .bigInt => ∃ n, v = .i64 n ∧ -2 ^ 63 ≤ n ∧ n < 2 ^ 63
  | .float => ∃ x, v = .f64 x ∧ x ≠ .nan
  | .dateTime => ∃ t, v = .dateTime t ∧ t.nanos % 1000000000 = 0
  | .decimal _ _ | .date | .time | .duration | .uuid => False

section Same
variable {f : FieldMeta} {v v' : Value}

theorem sameF64_self {x : F64} : sameF64 x x = true ↔ x ≠ .nan := by
  cases x with
  | num bits h => simp [sameF64]
  | nan => simp [sameF64]

theorem sameValue_null : sameValue v .null = true ↔ v = .null := by
  cases v <;> simp [sameValue]

theorem sameValue_bool {b : Bool} : sameValue v (.bool b) = true ↔ v = .bool b := by
  cases v <;> simp [sameValue]

theorem sameValue_text {s : String} : sameValue v (.text s) = true ↔ v = .text s := by
  cases v <;> simp [sameValue]

theorem sameValue_i64 {n : Int} : sameValue v (.i64 n) = true ↔ v = .i64 n := by
  cases v <;> simp [sameValue]

theorem sameValue_dateTime {t : DateTime} : sameValue v (.dateTime t) = true ↔ v = .dateTime t := by
  cases v <;> simp [sameValue]

theorem blank_cases (h : blank f = some v) : v = .null ∨ v = .bool false := by
  rw [blank] at h
  split at h
  · exact .inl (Option.some.inj h).symm
  · split at h
    · exact .inr (Option.some.inj h).symm
    · cases h

theorem sameValue_blank (h : blank f = some v') : sameValue v v' = true ↔ v = v' := by
  rcases blank_cases h with rfl | rfl
  · exact sameValue_null
  · exact sameValue_bool

end Same

section Texts
variable [Rest.Parse] {f : FieldMeta} {raw : Option String} {s : String} {v v' : Value}

/-- A text that is not there is an empty one. -/
theorem parse_empty (h : raw.getD "" = "") : parseFieldValue f raw = some (.ok v) ↔ blank f = some v := by
  have hraw : parseFieldValue f raw = parseFieldValue f none := by
    cases raw with
    | none => rfl
    | some s =>
      obtain rfl : s = "" := h
      rfl
  rw [hraw, parseFieldValue, blank]
  by_cases hkind : f.kind = .boolean <;> cases f.nullable <;> simp [hkind]

theorem parse_unread_text (hkind : isRead f.kind = false) (hs : s ≠ "") : parseFieldValue f (some s) ≠ some (.ok v) := by
  cases hk : f.kind <;> rw [hk] at hkind <;> first | exact absurd hkind (by decide) | simp [parseFieldValue, hk, hs]

theorem parse_unread (hkind : isRead f.kind = false) (h : parseFieldValue f raw = some (.ok v)) : blank f = some v := by
  rcases raw with _ | s
  · exact (parse_empty rfl).mp h
  · by_cases hs : s = ""
    · exact (@parse_empty _ _ (some s) _ hs).mp h
    · exact absurd h (parse_unread_text hkind hs)

theorem parse_integer (hkind : f.kind = .integer ∨ f.kind = .bigInt) (hs : s ≠ "") :
    parseFieldValue f (some s) = some (.ok v) ↔ ∃ n, Text.parseSigned (2 ^ 63) s.toList = some n ∧ v = .i64 n := by
  cases hparse : Text.parseSigned (2 ^ 63) s.toList <;> rcases hkind with hkind | hkind <;>
    simp [-Nat.reducePow, parseFieldValue, hkind, hs, hparse, eq_comm]

theorem parse_float (hkind : f.kind = .float) (hs : s ≠ "") :
    parseFieldValue f (some s) = some (.ok v) ↔ ∃ x, Rest.Parse.f64 s = some x ∧ v = .f64 x := by
  cases hparse : Rest.Parse.f64 s <;> simp [parseFieldValue, hkind, hs, hparse, eq_comm]

theorem parse_dateTime (hkind : f.kind = .dateTime) (hs : s ≠ "") :
    parseFieldValue f (some s) = some (.ok v) ↔ ∃ t, Rest.Parse.naive s = some t ∧ v = .dateTime t := by
  cases hparse : Rest.Parse.naive s <;> simp [parseFieldValue, hkind, hs, hparse, eq_comm]

theorem parse_text (hkind : isText f.kind = true) (hs : s ≠ "") : parseFieldValue f (some s) = some (.ok (.text s)) := by
  cases hk : f.kind <;> rw [hk] at hkind <;> first | cases hkind; done | simp [parseFieldValue, hk, hs]

theorem parse_boolean (hkind : f.kind = .boolean) (hs : s ≠ "") : parseFieldValue f (some s) = some (.ok (.bool true)) := by
  simp [parseFieldValue, hkind, hs]

end Texts

/-! ### Controls -/

/-- The text that the control of a value submits. -/
def submitted [Fmt] (f : FieldMeta) (v : Value) : Option String :=
  if f.kind = .boolean then if v.display = "on" ∨ v.display = "true" then some "on" else none else some v.display

theorem toString_int_ne (n : Int) : toString n ≠ "" := by
  cases n with
  | ofNat n => exact fun h => (Text.digits_of_toString n).1 (congrArg String.toList h)
  | negSucc n =>
    intro h
    have h := congrArg String.toList h
    rw [Text.toString_negSucc] at h
    cases h

section Controls
variable [Fmt] [Rest.Parse] {f : FieldMeta} {v v' : Value}

theorem boolean_iff (hkind : f.kind = .boolean) :
    parseFieldValue f (submitted f v) = some (.ok v') ∧ sameValue v v' = true ↔
      (v = .bool true ∨ blank f = some v) ∧ v' = v := by
  rw [submitted, if_pos hkind]
  split
  · rename_i hchecked
    rw [parse_boolean hkind (by decide)]
    constructor
    · rintro ⟨h, hsame⟩
      cases h
      exact ⟨.inl (sameValue_bool.mp hsame), (sameValue_bool.mp hsame).symm⟩
    · rintro ⟨rfl | h, rfl⟩
      · exact ⟨rfl, sameValue_bool.mpr rfl⟩
      · rcases blank_cases h with rfl | rfl
        · simp [Value.display] at hchecked
        · exact absurd (show toString false = "on" ∨ toString false = "true" from hchecked) (by decide)
  · rename_i hchecked
    rw [parse_empty rfl]
    constructor
    · rintro ⟨h, hsame⟩
      obtain rfl := (sameValue_blank h).mp hsame
      exact ⟨.inr h, rfl⟩
    · rintro ⟨rfl | h, rfl⟩
      · exact absurd (.inr rfl) hchecked
      · exact ⟨h, (sameValue_blank h).mpr rfl⟩

omit [Rest.Parse] in
theorem display_blank_ne (h : blank f = some v) : v.display ≠ "" := by
  rcases blank_cases h with rfl | rfl
  · simp [Value.display]
  · exact show toString false ≠ "" by decide

theorem text_iff (hkind : isText f.kind = true) (hdisplay : v.display ≠ "") :
    parseFieldValue f (some v.display) = some (.ok v') ∧ sameValue v v' = true ↔ (∃ s, v = .text s ∧ s ≠ "") ∧ v' = v := by
  rw [parse_text hkind hdisplay]
  constructor
  · rintro ⟨h, hsame⟩
    cases h
    have hv := sameValue_text.mp hsame
    exact ⟨⟨_, hv, hdisplay⟩, hv.symm⟩
  · rintro ⟨⟨s, rfl, -⟩, rfl⟩
    exact ⟨rfl, sameValue_text.mpr rfl⟩

theorem integer_iff (hkind : f.kind = .integer ∨ f.kind = .bigInt) (hdisplay : v.display ≠ "") :
    parseFieldValue f (some v.display) = some (.ok v') ∧ sameValue v v' = true ↔
      (∃ n, v = .i64 n ∧ -2 ^ 63 ≤ n ∧ n < 2 ^ 63) ∧ v' = v := by
  rw [parse_integer hkind hdisplay]
  constructor
  · rintro ⟨⟨n, hn, rfl⟩, hsame⟩
    obtain rfl := sameValue_i64.mp hsame
    exact ⟨⟨n, rfl, Text.parseSigned_bounds hn⟩, rfl⟩
  · rintro ⟨⟨n, rfl, hlower, hupper⟩, rfl⟩
    exact ⟨⟨n, Text.parseSigned_toString hlower hupper, rfl⟩, sameValue_i64.mpr rfl⟩

variable [LawfulTexts]

theorem float_iff (hkind : f.kind = .float) (hdisplay : v.display ≠ "") :
    parseFieldValue f (some v.display) = some (.ok v') ∧ sameValue v v' = true ↔ (∃ x, v = .f64 x ∧ x ≠ .nan) ∧ v' = v := by
  rw [parse_float hkind hdisplay]
  constructor
  · rintro ⟨⟨y, hy, rfl⟩, hsame⟩
    cases v with
    | f64 x =>
      obtain rfl := Option.some.inj ((LawfulTexts.f64_display x).symm.trans hy)
      exact ⟨⟨x, rfl, sameF64_self.mp (by simpa [sameValue] using hsame)⟩, rfl⟩
    | i64 | text | bool | dateTime | null | list => simp [sameValue] at hsame
  · rintro ⟨⟨x, rfl, hx⟩, rfl⟩
    exact ⟨⟨x, LawfulTexts.f64_display x, rfl⟩, by simpa [sameValue] using sameF64_self.mpr hx⟩

theorem dateTime_iff (hkind : f.kind = .dateTime) (hdisplay : v.display ≠ "") :
    parseFieldValue f (some v.display) = some (.ok v') ∧ sameValue v v' = true ↔
      (∃ t, v = .dateTime t ∧ t.nanos % 1000000000 = 0) ∧ v' = v := by
  rw [parse_dateTime hkind hdisplay]
  constructor
  · rintro ⟨⟨t, ht, rfl⟩, hsame⟩
    obtain rfl := sameValue_dateTime.mp hsame
    have hread := Option.some.inj ((LawfulTexts.naive_display t).symm.trans ht)
    have hnanos : t.nanos - t.nanos % 1000000000 = t.nanos := congrArg DateTime.nanos hread
    exact ⟨⟨t, rfl, by omega⟩, rfl⟩
  · rintro ⟨⟨t, rfl, ht⟩, rfl⟩
    refine ⟨⟨t, ?_, rfl⟩, sameValue_dateTime.mpr rfl⟩
    rw [Value.display, LawfulTexts.naive_display, ht, Int.sub_zero]

omit [Rest.Parse] [LawfulTexts] [Fmt] in
theorem printed_text (hkind : isText f.kind = true) : Printed f v ↔ ∃ s, v = .text s ∧ s ≠ "" := by
  cases hk : f.kind <;> rw [hk] at hkind <;> first | cases hkind; done | rw [Printed, hk]

omit [Rest.Parse] [LawfulTexts] [Fmt] in
theorem printed_integer (hkind : f.kind = .integer ∨ f.kind = .bigInt) :
    Printed f v ↔ ∃ n, v = .i64 n ∧ -2 ^ 63 ≤ n ∧ n < 2 ^ 63 := by
  rcases hkind with hkind | hkind <;> rw [Printed, hkind]

omit [Rest.Parse] [LawfulTexts] [Fmt] in
theorem not_printed (hkind : isRead f.kind = false) : ¬Printed f v := by
  cases hk : f.kind <;> rw [hk] at hkind <;> first | exact absurd hkind (by decide) | (rw [Printed, hk]; exact id)

/-- A value that is printed has a text. -/
theorem display_ne_of_printed (hboolean : f.kind ≠ .boolean) (h : Printed f v) : v.display ≠ "" := by
  rcases kind_cases f.kind with hkind | hkind | hkind | hkind | hkind | hkind
  · contradiction
  · obtain ⟨s, rfl, hs⟩ := (printed_text hkind).mp h
    exact hs
  · obtain ⟨n, rfl, -⟩ := (printed_integer hkind).mp h
    exact toString_int_ne n
  · rw [Printed, hkind] at h
    obtain ⟨x, rfl, -⟩ := h
    intro hempty
    have hread := LawfulTexts.f64_display x
    rw [show Fmt.f64Display x = "" from hempty, LawfulTexts.f64_empty] at hread
    cases hread
  · rw [Printed, hkind] at h
    obtain ⟨t, rfl, -⟩ := h
    intro hempty
    have hread := LawfulTexts.naive_display t
    rw [show Fmt.dateTimeDisplay t = "" from hempty, LawfulTexts.naive_empty] at hread
    cases hread
  · exact absurd h (not_printed hkind)

/-- What comes back from a control is the same value exactly for a value that is printed, and then it is this value. -/
theorem printed_iff : parseFieldValue f (submitted f v) = some (.ok v') ∧ sameValue v v' = true ↔ Printed f v ∧ v' = v := by
  by_cases hboolean : f.kind = .boolean
  · rw [Printed, hboolean]
    exact boolean_iff hboolean
  rw [submitted, if_neg hboolean]
  by_cases hdisplay : v.display = ""
  · refine ⟨fun ⟨hparse, hsame⟩ => ?_, fun ⟨hprinted, _⟩ => absurd hdisplay (display_ne_of_printed hboolean hprinted)⟩
    have hblank : blank f = some v' := (@parse_empty _ _ (some v.display) _ hdisplay).mp hparse
    obtain rfl := (sameValue_blank hblank).mp hsame
    exact absurd hdisplay (display_blank_ne hblank)
  · rcases kind_cases f.kind with hkind | hkind | hkind | hkind | hkind | hkind
    · contradiction
    · rw [text_iff hkind hdisplay, printed_text hkind]
    · rw [integer_iff hkind hdisplay, printed_integer hkind]
    · rw [float_iff hkind hdisplay, Printed, hkind]
    · rw [dateTime_iff hkind hdisplay, Printed, hkind]
    · refine ⟨fun ⟨hparse, hsame⟩ => ?_, fun ⟨hprinted, _⟩ => absurd hprinted (not_printed hkind)⟩
      exact absurd hparse (parse_unread_text hkind hdisplay)

omit [Rest.Parse] [LawfulTexts] in
theorem relation_iff {r : RelationMeta} : parseRelationValue r (some v.display) = .ok v' ∧ sameValue v v' = true ↔
    (∃ n, v = .i64 n ∧ -2 ^ 63 ≤ n ∧ n < 2 ^ 63) ∧ v' = v := by
  rw [parseRelationValue, Option.getD_some]
  split
  · rename_i hempty
    constructor
    · rintro ⟨h, hsame⟩
      cases h
      obtain rfl := sameValue_null.mp hsame
      simp [Value.display] at hempty
    · rintro ⟨⟨n, rfl, -⟩, -⟩
      exact absurd hempty (toString_int_ne n)
  · constructor
    · rintro ⟨h, hsame⟩
      cases hparse : Text.parseSigned (2 ^ 63) v.display.toList with
      | none => rw [hparse] at h; cases h
      | some n =>
        rw [hparse] at h
        cases h
        obtain rfl := sameValue_i64.mp hsame
        exact ⟨⟨n, rfl, Text.parseSigned_bounds hparse⟩, rfl⟩
    · rintro ⟨⟨n, rfl, hlower, hupper⟩, rfl⟩
      rw [Value.display, Text.parseSigned_toString hlower hupper]
      exact ⟨rfl, sameValue_i64.mpr rfl⟩

/-- There is a text for another value of a kind that is read. -/
theorem exists_other_text (hread : isRead f.kind = true) (m : ModelMeta) (cell : Cell) :
    ∃ s v, parseFieldValue f (some s) = some (.ok v) ∧ storedCell m f.name v ≠ cell := by
  have htwo : ∃ s v s' v', parseFieldValue f (some s) = some (.ok v) ∧ parseFieldValue f (some s') = some (.ok v') ∧
      storedCell m f.name v ≠ storedCell m f.name v' := by
    rcases kind_cases f.kind with hkind | hkind | hkind | hkind | hkind | hkind
    · have hblank : ∃ v, blank f = some v := by
        rw [blank, if_pos hkind]
        split <;> exact ⟨_, rfl⟩
      obtain ⟨v, hv⟩ := hblank
      refine ⟨"", v, "on", .bool true, (parse_empty rfl).mpr hv, parse_boolean hkind (by decide), ?_⟩
      rcases blank_cases hv with rfl | rfl <;> simp [storedCell, Value.toBindAs, Value.toBind, BindValue.cell]
    · exact ⟨"a", _, "b", _, parse_text hkind (by decide), parse_text hkind (by decide), by
        simp [storedCell, Value.toBindAs, Value.toBind, BindValue.cell]⟩
    · refine ⟨"0", .i64 0, "1", .i64 1, (parse_integer hkind (by decide)).mpr ⟨0, by decide, rfl⟩,
        (parse_integer hkind (by decide)).mpr ⟨1, by decide, rfl⟩, ?_⟩
      simp [storedCell, Value.toBindAs, Value.toBind, BindValue.cell]
    · have hone (x : F64) (hx : x ≠ .nan) : parseFieldValue f (some (Fmt.f64Display x)) = some (.ok (.f64 x)) := by
        have hprinted : Printed f (.f64 x) := by
          rw [Printed, hkind]
          exact ⟨x, rfl, hx⟩
        have hcontrol : submitted f (.f64 x) = some (Fmt.f64Display x) := by
          rw [submitted, if_neg (by rw [hkind]; decide), Value.display]
        exact hcontrol ▸ (printed_iff.mpr ⟨hprinted, rfl⟩).1
      refine ⟨_, _, _, _, hone (.num 0 (by decide)) (by simp), hone (.num 1 (by decide)) (by simp), ?_⟩
      simp [storedCell, Value.toBindAs, Value.toBind, BindValue.cell]
    · have hone (t : DateTime) (ht : t.nanos % 1000000000 = 0) :
          parseFieldValue f (some (Fmt.dateTimeDisplay t)) = some (.ok (.dateTime t)) := by
        have hprinted : Printed f (.dateTime t) := by
          rw [Printed, hkind]
          exact ⟨t, rfl, ht⟩
        have hcontrol : submitted f (.dateTime t) = some (Fmt.dateTimeDisplay t) := by
          rw [submitted, if_neg (by rw [hkind]; decide), Value.display]
        exact hcontrol ▸ (printed_iff.mpr ⟨hprinted, rfl⟩).1
      refine ⟨_, _, _, _, hone ⟨0⟩ (by decide), hone ⟨1000000000⟩ (by decide), ?_⟩
      simp [storedCell, Value.toBindAs, Value.toBind, BindValue.cell]
    · rw [hread] at hkind
      cases hkind
  obtain ⟨s, v, s', v', hs, hs', hne⟩ := htwo
  by_cases hcell : storedCell m f.name v = cell
  · exact ⟨s', v', hs', fun h => hne (hcell.trans h.symm)⟩
  · exact ⟨s, v, hs, hcell⟩

omit [Fmt] [Rest.Parse] [LawfulTexts] in
theorem exists_other_key (r : RelationMeta) (m : ModelMeta) (cell : Cell) :
    ∃ s v, parseRelationValue r (some s) = .ok v ∧ storedCell m r.fieldName v ≠ cell := by
  by_cases hcell : cell = .i64 0
  · refine ⟨"1", .i64 1, by rfl, ?_⟩
    simp [hcell, storedCell, Value.toBindAs, Value.toBind, BindValue.cell]
  · exact ⟨"0", .i64 0, by rfl, fun h => hcell h.symm⟩

end Controls

/-! ### Submissions -/

section Submissions
variable [CaseMap] {site : Site} {admin : ModelAdmin} {options : FormOptions} {page : FormPage} {name : String}

/-- The names that a form has rows for. -/
def rendered (admin : ModelAdmin) (options : FormOptions) : List String :=
  match options.fieldsets with
  | some fieldsets => fieldsets.flatMap (·.2) ++ admin.fieldNames.filter fun name => name ∉ fieldsets.flatMap (·.2)
  | none => admin.fieldNames

omit [CaseMap] in
theorem mem_rendered (h : name ∈ admin.fieldNames) : name ∈ rendered admin options := by
  rw [rendered]
  split
  · rename_i fieldsets _
    rw [List.mem_append]
    by_cases hsection : name ∈ fieldsets.flatMap (·.2)
    · exact .inl hsection
    · exact .inr (List.mem_filter.mpr ⟨h, decide_eq_true hsection⟩)
  · exact h

/-- What the rows of a name submit. -/
def controlOf (site : Site) (admin : ModelAdmin) (options : FormOptions) (page : FormPage) (name : String) :
    Option (String × String) := (buildRow site admin options page name none).bind (·.control)

/-- The section of a row does not matter. -/
theorem control_section (section_ : Option String) :
    (buildRow site admin options page name section_).bind (·.control) = controlOf site admin options page name := by
  rw [controlOf, buildRow, buildRow]
  cases admin.info.field? name with
  | none => cases admin.info.relation? name <;> rfl
  | some field =>
    dsimp only
    split
    · split <;> rfl
    · rfl

theorem controls_eq : controls site admin options page =
    (rendered admin options).filterMap (controlOf site admin options page) := by
  have hsection (section_ : Option String) (names : List String) :
      (names.filterMap fun name => buildRow site admin options page name section_).filterMap (·.control) =
        names.filterMap (controlOf site admin options page) := by
    rw [List.filterMap_filterMap]
    exact List.filterMap_congr fun name _ => control_section section_
  rw [controls, renderForm, rendered]
  cases options.fieldsets with
  | none => exact hsection none _
  | some fieldsets =>
    dsimp only
    rw [List.filterMap_append, List.filterMap_append, hsection, List.filterMap_flatMap, List.filterMap_flatMap]
    exact congrArg (· ++ _) (List.flatMap_congr fun fieldset _ => hsection (some fieldset.1) fieldset.2)

theorem controlOf_name {p : String × String} (h : controlOf site admin options page name = some p) : p.1 = name := by
  obtain ⟨row, hrow, hcontrol⟩ := Option.bind_eq_some_iff.mp h
  have hname : row.name = name := by
    rw [buildRow] at hrow
    split at hrow
    · split at hrow
      · split at hrow <;> cases hrow
        rfl
      · cases hrow
        rfl
    · obtain ⟨_, _, rfl⟩ := Option.map_eq_some_iff.mp hrow
      rfl
  rw [FormFieldRow.control] at hcontrol
  split at hcontrol
  · cases hcontrol
  · split at hcontrol <;> cases hcontrol
    exact hname
  · cases hcontrol
    exact hname
  · cases hcontrol
    exact hname

/-- A form has the text of a control, however often its row is repeated. -/
theorem formData_controls (h : name ∈ rendered admin options) :
    formData (controls site admin options page) name = (controlOf site admin options page name).map (·.2) := by
  rw [formData, controls_eq, ← List.filterMap_reverse,
    List.lookup_filterMap_key (fun _ _ h => controlOf_name h) (List.mem_reverse.mpr h)]

variable [Fmt] {values : List (String × Value)} {v : Value}

omit [CaseMap] in
theorem formData_displayed (hnodup : (values.map (·.1)).Nodup) :
    formData (displayed values) name = (values.lookup name).map Value.display := by
  have hkeys : ((displayed values).reverse.map (·.1)).Nodup := by
    rw [List.map_reverse, List.nodup_reverse, displayed, List.map_map]
    exact hnodup
  rw [formData]
  cases hv : values.lookup name with
  | none =>
    rw [List.lookup_eq_none_iff] at hv
    refine List.lookup_eq_none_iff.mpr fun p hp => ?_
    obtain ⟨q, hq, rfl⟩ := List.mem_map.mp (List.mem_reverse.mp hp)
    exact hv q hq
  | some v =>
    obtain ⟨before, after, rfl, -⟩ := List.lookup_eq_some_iff.mp hv
    refine List.lookup_of_mem hkeys (List.mem_reverse.mpr ?_)
    exact List.mem_map.mpr ⟨(name, v), by simp, rfl⟩

/-- Keys and the listed fields have no control. -/
theorem controlOf_field {f : FieldMeta} (hf : f ∈ admin.info.fields) (hauto : f.auto = false) (hadd : page.isAdd = false)
    (hvalue : formData page.values f.name = some v.display) :
    (controlOf site admin options page f.name).map (·.2) =
      if f.primaryKey = true ∨ f.name ∈ options.readonlyFields then none else submitted f v := by
  rw [controlOf, buildRow, ModelAdmin.field?_eq hf, hvalue]
  dsimp only
  rw [hauto, hadd, Bool.false_or]
  by_cases hpk : f.primaryKey = true
  · rw [if_pos hpk, if_neg Bool.false_ne_true, if_pos (Or.inl hpk)]
    rfl
  · rw [if_neg hpk]
    by_cases hlisted : f.name ∈ options.readonlyFields
    · rw [if_pos hlisted, if_pos (Or.inr hlisted)]
      rfl
    · rw [if_neg hlisted, if_neg (not_or.mpr ⟨hpk, hlisted⟩), submitted]
      by_cases hchecked : v.display = "on" ∨ v.display = "true" <;> cases f.kind <;>
        simp [fieldRowKind, FormFieldRow.control, hchecked]

theorem controlOf_relation {r : RelationMeta} (hr : r ∈ admin.info.relations)
    (hvalue : formData page.values r.fieldName = some v.display) :
    (controlOf site admin options page r.fieldName).map (·.2) =
      if r.fieldName ∈ options.readonlyFields then none else some v.display := by
  obtain ⟨hfield, hrelation⟩ := ModelAdmin.relation?_eq hr
  rw [controlOf, buildRow, hfield, hrelation, hvalue]
  by_cases hlisted : r.fieldName ∈ options.readonlyFields
  · simp [hlisted, FormFieldRow.control]
  · simp [hlisted, FormFieldRow.control]

end Submissions

/-! ### Forms that can be read -/

section Readable
variable [Rest.Parse] {fields : List FieldMeta} {relations : List RelationMeta} {form : FormData} {vs : List (String × Value)}

/-- A form can be read when each of its texts can. -/
theorem readForm_of_ok (hfields : ∀ f ∈ fields, ∃ v, parseFieldValue f (form f.name) = some (.ok v))
    (hrelations : ∀ r ∈ relations, ∃ v, parseRelationValue r (form r.fieldName) = .ok v) :
    ∃ vs, readForm fields relations form = some (.ok vs) := by
  have hread : ∃ read, (fields.mapM fun field => (parseFieldValue field (form field.name)).map fun value =>
      (field.name, value)) = some read ∧ read.filterMap Rest.errorOf = [] := by
    induction fields with
    | nil => exact ⟨[], rfl, rfl⟩
    | cons f fields ih =>
      obtain ⟨v, hv⟩ := hfields f List.mem_cons_self
      obtain ⟨read, hread, herrors⟩ := ih fun g hg => hfields g (List.mem_cons_of_mem f hg)
      refine ⟨(f.name, .ok v) :: read, by rw [List.mapM_cons, hv, hread]; rfl, ?_⟩
      rw [List.filterMap_cons_none rfl, herrors]
  obtain ⟨read, hread, herrors⟩ := hread
  have hnone : (relations.map fun relation =>
      (relation.fieldName, parseRelationValue relation (form relation.fieldName))).filterMap Rest.errorOf = [] := by
    refine List.filterMap_eq_nil_iff.mpr fun p hp => ?_
    obtain ⟨relation, hrelation, rfl⟩ := List.mem_map.mp hp
    obtain ⟨v, hv⟩ := hrelations relation hrelation
    rw [hv]
    rfl
  rw [readForm, hread]
  exact ⟨_, congrArg some (if_pos (by rw [List.filterMap_append, herrors, hnone]; rfl))⟩

theorem readForm_field (h : readForm fields relations form = some (.ok vs)) (hnodup : (vs.map (·.1)).Nodup)
    {f : FieldMeta} (hf : f ∈ fields) : ∃ v, vs.lookup f.name = some v ∧ parseFieldValue f (form f.name) = some (.ok v) := by
  obtain ⟨ofFields, hfields, ofRelations, -, rfl⟩ := readForm_eq_ok h
  obtain ⟨⟨name, v⟩, hp, hv, rfl⟩ := hfields.exists_of_mem_left hf
  exact ⟨v, List.lookup_of_mem hnodup (List.mem_append_left _ hp), hv⟩

theorem readForm_relation (h : readForm fields relations form = some (.ok vs)) (hnodup : (vs.map (·.1)).Nodup)
    {r : RelationMeta} (hr : r ∈ relations) :
    ∃ v, vs.lookup r.fieldName = some v ∧ parseRelationValue r (form r.fieldName) = .ok v := by
  obtain ⟨ofFields, -, ofRelations, hrelations, rfl⟩ := readForm_eq_ok h
  obtain ⟨⟨name, v⟩, hp, hv, rfl⟩ := hrelations.exists_of_mem_left hr
  exact ⟨v, List.lookup_of_mem hnodup (List.mem_append_right _ hp), hv⟩

end Readable

end Djangors.Admin

/-! ## Inputs of a changelist

The names of the inputs are split at their first two dashes. A key from zero on and its field are found again in the name;
a negative key is not. -/

namespace Djangors.Admin
open Db Http Orm Sql

section Names
variable {editable : List String} {pairs : List (String × String)} {edited : List (Int × String × String)} {pk : Int}
  {name value : String}

theorem editName_toList (pk name : String) :
    (editName pk name).toList = "edit-".toList ++ (pk.toList ++ '-' :: name.toList) := by
  simp [editName, String.toList_append]

theorem isPrefixOf_editName (pk name : String) : "edit-".toList.isPrefixOf (editName pk name).toList = true := by
  rw [editName_toList, List.isPrefixOf_iff_prefix]
  exact List.prefix_append _ _

theorem editName_drop (pk name : String) : (editName pk name).toList.drop 5 = pk.toList ++ '-' :: name.toList := by
  rw [editName_toList]
  exact List.drop_left' rfl

/-- A control of another name is passed over. -/
theorem edits_other {key : String} (h : "edit-".toList.isPrefixOf key.toList = false) :
    edits editable ((key, value) :: pairs) = edits editable pairs := by
  rw [edits, h]

theorem edits_negative {k : Nat} :
    edits editable ((editName (toString (Int.negSucc k)) name, value) :: pairs) =
      .error (.badRequest "invalid pk in edit field".toList) := by
  have hspan (rest : List Char) : ('-' :: rest).span (· ≠ '-') = ([], '-' :: rest) := by
    rw [List.span_eq_takeWhile_dropWhile]
    simp
  rw [edits, isPrefixOf_editName, editName_drop, Text.toString_negSucc, List.cons_append, hspan]
  rfl

theorem edits_cons {k : Nat} (hk : k < 2 ^ 63) :
    edits editable ((editName (toString k) name, value) :: pairs) = (edits editable pairs).map fun rest =>
      if name ∈ editable then ((k : Int), name, value) :: rest else rest := by
  obtain ⟨htake, hdrop⟩ := Text.span_digits k '-' rfl name.toList
  have hspan : ((toString k).toList ++ '-' :: name.toList).span (· ≠ '-') = ((toString k).toList, '-' :: name.toList) := by
    rw [List.span_eq_takeWhile_dropWhile, htake, hdrop]
  have hparse : Text.parseSigned (2 ^ 63) (toString k).toList = some (k : Int) :=
    @Text.parseSigned_toString (2 ^ 63) k (by omega) (by exact_mod_cast hk)
  rw [edits, isPrefixOf_editName, editName_drop, hspan]
  dsimp only
  rw [hparse, String.ofList_toList]
  cases edits editable pairs <;> rfl

theorem digits_dash_inj {k k' : Nat} {rest rest' : List Char}
    (h : (toString k).toList ++ '-' :: rest = (toString k').toList ++ '-' :: rest') : k = k' ∧ rest = rest' := by
  obtain ⟨htake, hdrop⟩ := Text.span_digits k '-' rfl rest
  obtain ⟨htake', hdrop'⟩ := Text.span_digits k' '-' rfl rest'
  rw [h] at htake hdrop
  have hdigits := Text.digits?_toString k
  rw [htake.symm.trans htake', Text.digits?_toString] at hdigits
  exact ⟨(Option.some.inj hdigits).symm, (List.cons.inj (hdrop.symm.trans hdrop')).2⟩

theorem digits_append_ne {k : Nat} (text rest : List Char) : (toString k).toList ++ text ≠ '-' :: rest := by
  obtain ⟨hne, hdigits⟩ := Text.digits_of_toString k
  cases hk : (toString k).toList with
  | nil => exact absurd hk hne
  | cons c cs =>
    intro h
    have hc := hdigits c (hk ▸ List.mem_cons_self)
    rw [(List.cons.inj h).1] at hc
    cases hc

/-- The names of different cells are different. -/
theorem editName_inj {pk' : Int} {name' : String} :
    editName (toString pk) name = editName (toString pk') name' ↔ pk = pk' ∧ name = name' := by
  refine ⟨fun h => ?_, fun ⟨hpk, hname⟩ => by rw [hpk, hname]⟩
  have hdrop : (toString pk).toList ++ '-' :: name.toList = (toString pk').toList ++ '-' :: name'.toList := by
    rw [← editName_drop, ← editName_drop, h]
  cases pk with
  | ofNat n =>
    cases pk' with
    | ofNat n' =>
      obtain ⟨hn, hname⟩ := digits_dash_inj hdrop
      exact ⟨congrArg Int.ofNat hn, String.toList_inj.mp hname⟩
    | negSucc n' =>
      rw [Text.toString_negSucc] at hdrop
      exact absurd hdrop (digits_append_ne _ _)
  | negSucc n =>
    rw [Text.toString_negSucc] at hdrop
    cases pk' with
    | ofNat n' => exact absurd hdrop.symm (digits_append_ne _ _)
    | negSucc n' =>
      rw [Text.toString_negSucc, List.cons_append, List.cons_append] at hdrop
      obtain ⟨hn, hname⟩ := digits_dash_inj (List.cons.inj hdrop).2
      exact ⟨congrArg Int.negSucc (Nat.succ.inj hn), String.toList_inj.mp hname⟩

end Names

/-! ### What is submitted for a cell -/

section Submitted
variable {editable : List String} {pairs : List (String × String)} {edited : List (Int × String × String)}

/-- The submission names cells by their keys in decimal, and only of fields that can be edited. -/
def Canonical (editable : List String) (pairs : List (String × String)) : Prop :=
  ∀ p ∈ pairs, "edit-".toList.isPrefixOf p.1.toList = true →
    ∃ pk : Int, -2 ^ 63 ≤ pk ∧ pk < 2 ^ 63 ∧ ∃ name ∈ editable, p.1 = editName (toString pk) name

theorem formData_cons {p : String × String} {name : String} :
    formData (p :: pairs) name = (formData pairs name).or (if name = p.1 then some p.2 else none) := by
  rw [formData, List.reverse_cons, List.lookup_append, List.lookup_cons]
  by_cases h : name = p.1
  · simp [formData, h]
  · simp [formData, h, beq_eq_false_iff_ne.mpr h]

theorem editsOf_cons {e : Int × String × String} {pk : Int} {name : String} :
    editsOf (e :: edited) pk name =
      (editsOf edited pk name).or (if e.1 = pk ∧ name = e.2.1 then some e.2.2 else none) := by
  rw [editsOf, editsOf, List.filter_cons]
  by_cases h : e.1 = pk
  · simp [h, formData_cons]
  · simp [h]

/-- A form that is read gives each cell what is submitted under its name. -/
theorem editsOf_eq (hcanonical : Canonical editable pairs) (h : edits editable pairs = .ok edited) (pk : Int) (name : String) :
    editsOf edited pk name = formData pairs (editName (toString pk) name) := by
  induction pairs generalizing edited with
  | nil =>
    cases h
    rfl
  | cons p pairs ih =>
    obtain ⟨key, value⟩ := p
    have hrest : Canonical editable pairs := fun p hp => hcanonical p (List.mem_cons_of_mem _ hp)
    rw [formData_cons]
    by_cases hpre : "edit-".toList.isPrefixOf key.toList = true
    · obtain ⟨k, -, hupper, field, hfield, rfl⟩ := hcanonical _ List.mem_cons_self hpre
      cases k with
      | negSucc k =>
        rw [edits_negative] at h
        cases h
      | ofNat k =>
        have hname : toString (Int.ofNat k) = toString k := rfl
        have hk : (k : Int) < 2 ^ 63 := hupper
        rw [hname, edits_cons (by omega)] at h
        obtain ⟨rest, hread, rfl⟩ := Except.map_eq_ok h
        rw [if_pos hfield, editsOf_cons, ih hrest hread, hname]
        have hcell : editName (toString pk) name = editName (toString k) field ↔ (k : Int) = pk ∧ name = field :=
          (@editName_inj pk name (k : Int) field).trans (and_congr_left' eq_comm)
        rw [if_congr hcell.symm rfl rfl]
    · rw [edits_other (Bool.eq_false_of_not_eq_true hpre)] at h
      rw [ih hrest h, if_neg, Option.or_none]
      rintro rfl
      exact hpre (isPrefixOf_editName ..)

theorem exists_edit {pk : Int} : pk ∈ edited.map (·.1) ↔ ∃ name value, editsOf edited pk name = some value := by
  constructor
  · intro hpk
    obtain ⟨e, he, rfl⟩ := List.mem_map.mp hpk
    have hmem : e.2.1 ∈ ((edited.filter (·.1 = e.1)).map (·.2)).reverse.map (·.1) := by
      simp only [List.map_reverse, List.mem_reverse, List.map_map, List.mem_map, List.mem_filter]
      exact ⟨e, ⟨he, decide_eq_true rfl⟩, rfl⟩
    refine ⟨e.2.1, Option.isSome_iff_exists.mp (Option.isSome_iff_ne_none.mpr fun hnone => ?_)⟩
    obtain ⟨p, hp, hname⟩ := List.mem_map.mp hmem
    exact absurd hname.symm (bne_iff_ne.mp (List.lookup_eq_none_iff.mp hnone p hp))
  · rintro ⟨name, value, h⟩
    obtain ⟨e, he, -⟩ := List.mem_map.mp (List.mem_reverse.mp (List.mem_of_lookup h))
    exact List.mem_map.mpr ⟨e, List.mem_of_mem_filter he, of_decide_eq_true (List.mem_filter.mp he).2⟩

end Submitted

end Djangors.Admin
