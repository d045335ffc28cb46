import Mathlib.Data.List.Basic

/-! # Comma-separated values

The grammar of RFC 4180, over all characters. A line break at the end of a file ends the last record and does not open
an empty one. -/

namespace Csv

/-- A character that stands between quotes only. -/
def special (c : Char) : Bool := c = ',' || c = '"' || c = '\r' || c = '\n'

def doubled (c : Char) : List Char := if c = '"' then ['"', '"'] else [c]

/-- A value between quotes, where its own quotes are doubled. -/
def quoted (value : List Char) : List Char := '"' :: (value.flatMap doubled ++ ['"'])

/-- The text of a value. -/
inductive Field : List Char → List Char → Prop
  | plain {value : List Char} (h : ∀ c ∈ value, special c = false) : Field value value
  | escaped (value : List Char) : Field value (quoted value)

/-- The text of one or more values. -/
inductive Record : List (List Char) → List Char → Prop
  | one {value text : List Char} (field : Field value text) : Record [value] text
  | cons {value text rest : List Char} {values : List (List Char)} (field : Field value text) (record : Record values rest) :
      Record (value :: values) (text ++ ',' :: rest)

/-- The text of one or more records. -/
inductive File : List (List (List Char)) → List Char → Prop
  | last {record : List (List Char)} {text : List Char} (h : Record record text) (nonempty : text ≠ []) : File [record] text
  | ended {record : List (List Char)} {text : List Char} (h : Record record text) : File [record] (text ++ ['\r', '\n'])
  | cons {record : List (List Char)} {records : List (List (List Char))} {text rest : List Char} (h : Record record text)
      (file : File records rest) : File (record :: records) (text ++ '\r' :: '\n' :: rest)

variable {value value' text text' rest rest' : List Char} {values values' : List (List Char)}
  {records records' : List (List (List Char))}

/-! ### Texts that are put together -/

theorem Record.intercalate {texts : List (List Char)} (h : List.Forall₂ Field values texts) (nonempty : values ≠ []) :
    Record values ([','].intercalate texts) := by
  induction h with
  | nil => exact absurd rfl nonempty
  | @cons value text values texts field rest ih =>
    cases rest with
    | nil =>
      rw [List.intercalate_singleton]
      exact .one field
    | cons field' rest =>
      rw [List.intercalate_cons_cons, List.append_assoc]
      exact .cons field (ih (List.cons_ne_nil _ _))

/-- Records with a line break each. -/
theorem File.lines {texts : List (List Char)} (h : List.Forall₂ Record records texts) (nonempty : records ≠ []) :
    File records (texts.flatMap fun text => text ++ ['\r', '\n']) := by
  induction h with
  | nil => exact absurd rfl nonempty
  | @cons record text records texts first rest ih =>
    cases rest with
    | nil =>
      rw [List.flatMap_singleton]
      exact .ended first
    | cons second rest =>
      rw [List.flatMap_cons, List.append_assoc]
      exact .cons first (ih (List.cons_ne_nil _ _))

/-! ### A text has one reading -/

/-- The text of a field ends here. -/
def EndsField (rest : List Char) : Prop := ∀ c ∈ rest.head?, special c = true ∧ c ≠ '"'

/-- The text of a record ends here. -/
def EndsRecord (rest : List Char) : Prop := ∀ c ∈ rest.head?, c = '\r'

theorem EndsRecord.endsField (h : EndsRecord rest) : EndsField rest := by
  intro c hc
  obtain rfl := h c hc
  decide

theorem endsField_comma : EndsField (',' :: rest) := by
  rintro c ⟨⟩
  decide

theorem endsRecord_nil : EndsRecord [] := by
  rintro c ⟨⟩

theorem endsRecord_break : EndsRecord ('\r' :: rest) := by
  rintro c ⟨⟩
  rfl

/-- Characters that need no quotes go on to the end of the field. -/
theorem plain_inj (h : ∀ c ∈ value, special c = false) (h' : ∀ c ∈ value', special c = false)
    (heq : value ++ rest = value' ++ rest') (ends : EndsField rest) (ends' : EndsField rest') :
    value = value' ∧ rest = rest' := by
  induction value generalizing value' with
  | nil =>
    cases value' with
    | nil => exact ⟨rfl, heq⟩
    | cons c value' =>
      obtain rfl : rest = c :: (value' ++ rest') := heq
      exact absurd (ends c rfl).1 (by simp [h' c List.mem_cons_self])
  | cons c value ih =>
    cases value' with
    | nil =>
      obtain rfl : c :: (value ++ rest) = rest' := heq
      exact absurd (ends' c rfl).1 (by simp [h c List.mem_cons_self])
    | cons c' value' =>
      rw [List.cons_append, List.cons_append, List.cons.injEq] at heq
      obtain ⟨rfl, heq⟩ := heq
      obtain ⟨rfl, hrest⟩ := ih (fun d hd => h d (List.mem_cons_of_mem c hd))
        (fun d hd => h' d (List.mem_cons_of_mem c hd)) heq
      exact ⟨rfl, hrest⟩

theorem doubled_eq (c : Char) : ∃ more, doubled c = c :: more := by
  unfold doubled
  split
  · rename_i hc
    exact ⟨['"'], by rw [hc]⟩
  · exact ⟨[], rfl⟩

/-- Between quotes, only a quote that is not doubled is the last one. -/
theorem doubled_inj (heq : value.flatMap doubled ++ '"' :: rest = value'.flatMap doubled ++ '"' :: rest')
    (ends : EndsField rest) (ends' : EndsField rest') : value = value' ∧ rest = rest' := by
  -- behind the last quote there is no other one
  have last {c : Char} {value rest rest' : List Char} (ends : EndsField rest)
      (heq : '"' :: rest = doubled c ++ (value.flatMap doubled ++ '"' :: rest')) : False := by
    unfold doubled at heq
    split at heq
    · exact (ends '"' (by rw [(List.cons.inj heq).2]; rfl)).2 rfl
    · rename_i hc
      exact hc (List.cons.inj heq).1.symm
  induction value generalizing value' with
  | nil =>
    cases value' with
    | nil => exact ⟨rfl, (List.cons.inj heq).2⟩
    | cons c value' =>
      rw [List.flatMap_nil, List.nil_append, List.flatMap_cons, List.append_assoc] at heq
      exact (last ends heq).elim
  | cons c value ih =>
    cases value' with
    | nil =>
      rw [List.flatMap_nil, List.nil_append, List.flatMap_cons, List.append_assoc] at heq
      exact (last ends' heq.symm).elim
    | cons c' value' =>
      rw [List.flatMap_cons, List.flatMap_cons, List.append_assoc, List.append_assoc] at heq
      obtain rfl : c = c' := by
        obtain ⟨more, hmore⟩ := doubled_eq c
        obtain ⟨more', hmore'⟩ := doubled_eq c'
        rw [hmore, hmore'] at heq
        exact (List.cons.inj heq).1
      obtain ⟨rfl, hrest⟩ := ih (List.append_cancel_left heq)
      exact ⟨rfl, hrest⟩

/-- A text that needs no quotes does not start with one. -/
theorem plain_ne_quoted (h : ∀ c ∈ value, special c = false) (ends : EndsField rest) :
    value ++ rest ≠ quoted value' ++ rest' := by
  intro heq
  cases value with
  | nil =>
    obtain rfl : rest = quoted value' ++ rest' := heq
    exact (ends '"' rfl).2 rfl
  | cons c value =>
    have hc : c = '"' := (List.cons.inj heq).1
    exact absurd (h c List.mem_cons_self) (by rw [hc]; decide)

theorem Field.unique (h : Field value text) (h' : Field value' text') (heq : text ++ rest = text' ++ rest')
    (ends : EndsField rest) (ends' : EndsField rest') : value = value' ∧ rest = rest' := by
  cases h with
  | plain h =>
    cases h' with
    | plain h' => exact plain_inj h h' heq ends ends'
    | escaped => exact absurd heq (plain_ne_quoted h ends)
  | escaped =>
    cases h' with
    | plain h' => exact absurd heq.symm (plain_ne_quoted h' ends')
    | escaped =>
      simp only [quoted, List.cons_append, List.append_assoc, List.cons.injEq, true_and, List.nil_append] at heq
      exact doubled_inj heq ends ends'

theorem Record.unique (h : Record values text) (h' : Record values' text') (heq : text ++ rest = text' ++ rest')
    (ends : EndsRecord rest) (ends' : EndsRecord rest') : values = values' ∧ rest = rest' := by
  have comma {rest : List Char} (ends : EndsRecord (',' :: rest)) : False := absurd (ends ',' rfl) (by decide)
  induction h generalizing values' text' with
  | one field =>
    cases h' with
    | one field' =>
      obtain ⟨rfl, hrest⟩ := field.unique field' heq ends.endsField ends'.endsField
      exact ⟨rfl, hrest⟩
    | cons field' record' =>
      rw [List.append_assoc, List.cons_append] at heq
      obtain ⟨-, rfl⟩ := field.unique field' heq ends.endsField endsField_comma
      exact (comma ends).elim
  | cons field record ih =>
    rw [List.append_assoc, List.cons_append] at heq
    cases h' with
    | one field' =>
      obtain ⟨-, rfl⟩ := field.unique field' heq endsField_comma ends'.endsField
      exact (comma ends').elim
    | cons field' record' =>
      rw [List.append_assoc, List.cons_append] at heq
      obtain ⟨rfl, heq⟩ := field.unique field' heq endsField_comma endsField_comma
      obtain ⟨rfl, hrest⟩ := ih record' (List.cons.inj heq).2
      exact ⟨rfl, hrest⟩

theorem File.ne_nil (h : File records text) : text ≠ [] := by
  cases h <;> simp_all

/-- A file is its first record, and after a line break the others. -/
theorem File.first (h : File records text) : ∃ record line rest tail, Record record line ∧ EndsRecord rest ∧
    text = line ++ rest ∧ records = record :: tail ∧
      ((rest = [] ∧ tail = []) ∨ (rest = ['\r', '\n'] ∧ tail = []) ∨ ∃ more, rest = '\r' :: '\n' :: more ∧ File tail more) := by
  cases h with
  | last h => exact ⟨_, _, [], [], h, endsRecord_nil, (List.append_nil _).symm, rfl, .inl ⟨rfl, rfl⟩⟩
  | ended h => exact ⟨_, _, _, [], h, endsRecord_break, rfl, rfl, .inr (.inl ⟨rfl, rfl⟩)⟩
  | cons h file => exact ⟨_, _, _, _, h, endsRecord_break, rfl, rfl, .inr (.inr ⟨_, rfl, file⟩)⟩

/-- A text is the text of at most one list of records. -/
theorem File.unique (h : File records text) (h' : File records' text) : records = records' := by
  induction h generalizing records' with
  | last h =>
    obtain ⟨record', line', rest', tail', hrecord', hends', heq, rfl, htail⟩ := h'.first
    obtain ⟨rfl, rfl⟩ := h.unique hrecord' ((List.append_nil _).trans heq) endsRecord_nil hends'
    obtain ⟨-, rfl⟩ | ⟨hrest, -⟩ | ⟨more, hmore, -⟩ := htail
    · rfl
    · cases hrest
    · cases hmore
  | ended h =>
    obtain ⟨record', line', rest', tail', hrecord', hends', heq, rfl, htail⟩ := h'.first
    obtain ⟨rfl, rfl⟩ := h.unique hrecord' heq endsRecord_break hends'
    obtain ⟨hrest, -⟩ | ⟨-, rfl⟩ | ⟨more, hmore, hfile⟩ := htail
    · cases hrest
    · rfl
    · obtain rfl : [] = more := by simpa using hmore
      exact absurd rfl hfile.ne_nil
  | cons h file ih =>
    obtain ⟨record', line', rest', tail', hrecord', hends', heq, rfl, htail⟩ := h'.first
    obtain ⟨rfl, rfl⟩ := h.unique hrecord' heq endsRecord_break hends'
    obtain ⟨hrest, -⟩ | ⟨hrest, -⟩ | ⟨more, hmore, hfile⟩ := htail
    · cases hrest
    · exact absurd (by simpa using hrest) file.ne_nil
    · simp only [List.cons.injEq, true_and] at hmore
      rw [ih (hmore ▸ hfile)]

end Csv
