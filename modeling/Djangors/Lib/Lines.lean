import Djangors.Lib.Text
import Mathlib.Data.List.DropRight

/-! # Lines

Trimmed texts, the fields between separators, lines with their ends, and parts of a text that are cut out by
byte offsets. -/

namespace Text

/-- `char::is_whitespace` -/
def isWhitespace (c : Char) : Bool :=
  let n := c.toNat
  9 ≤ n && n ≤ 13 || n == 0x20 || n == 0x85 || n == 0xa0 || n == 0x1680 || 0x2000 ≤ n && n ≤ 0x200a || n == 0x2028 ||
    n == 0x2029 || n == 0x202f || n == 0x205f || n == 0x3000

/-- `split_whitespace` -/
def splitWhitespace (text : List Char) : List (List Char) := (text.splitOnP isWhitespace).filter (· ≠ [])

/-- `str::trim` -/
def trim (text : List Char) : List Char := (text.dropWhile isWhitespace).rdropWhile isWhitespace

theorem trim_cons {c : Char} (h : isWhitespace c = true) (text : List Char) : trim (c :: text) = trim text := by
  rw [trim, List.dropWhile_cons_of_pos h]
  rfl

theorem trim_concat {c : Char} (h : isWhitespace c = true) (text : List Char) : trim (text ++ [c]) = trim text := by
  rw [trim, trim, List.dropWhile_append]
  split
  · rename_i hnil
    rw [List.isEmpty_iff.mp hnil, List.dropWhile_cons_of_pos h]
    rfl
  · exact List.rdropWhile_concat_pos _ _ _ h

theorem trim_cons_of_solid {c : Char} (h : isWhitespace c = false) (text : List Char) :
    trim (c :: text) = c :: text.rdropWhile isWhitespace := by
  rw [trim, List.dropWhile_cons_of_neg (by rw [h]; exact Bool.false_ne_true)]
  induction text using List.reverseRecOn with
  | nil => simp [List.rdropWhile_singleton, h]
  | append_singleton text d ih =>
    rw [← List.cons_append]
    by_cases hd : isWhitespace d = true
    · rw [List.rdropWhile_concat_pos _ _ _ hd, List.rdropWhile_concat_pos _ _ _ hd, ih]
    · rw [List.rdropWhile_concat_neg _ _ _ hd, List.rdropWhile_concat_neg _ _ _ hd, List.cons_append]

theorem trim_sublist (text : List Char) : (trim text).Sublist text :=
  (List.rdropWhile_prefix _ _).sublist.trans (List.dropWhile_sublist _)

/-- A text that starts and ends with no whitespace is trimmed. -/
theorem trim_eq_self {c d : Char} {text middle : List Char} (hc : isWhitespace c = false) (hd : isWhitespace d = false)
    (h : c :: text = middle ++ [d]) : trim (c :: text) = c :: text := by
  rw [trim, List.dropWhile_cons_of_neg (by rw [hc]; exact Bool.false_ne_true), h]
  exact List.rdropWhile_concat_neg _ _ _ (by rw [hd]; exact Bool.false_ne_true)

/-- A text without whitespace is trimmed. -/
theorem trim_of_solid {text : List Char} (h : ∀ c ∈ text, isWhitespace c = false) : trim text = text := by
  cases text with
  | nil => rfl
  | cons c text =>
    rcases List.eq_nil_or_concat (c :: text) with hnil | ⟨middle, d, heq⟩
    · cases hnil
    · rw [List.concat_eq_append] at heq
      refine trim_eq_self (h c List.mem_cons_self) (h d ?_) heq
      rw [heq]
      exact List.mem_append_right _ (List.mem_singleton_self d)

/-- A trimmed text has lost only whitespace. -/
theorem countP_trim {p : Char → Bool} (hp : ∀ c, isWhitespace c = true → p c = false) (text : List Char) :
    (trim text).countP p = text.countP p := by
  have front : ∀ text : List Char, (text.dropWhile isWhitespace).countP p = text.countP p := by
    intro text
    induction text with
    | nil => rfl
    | cons c text ih =>
      by_cases hc : isWhitespace c = true
      · rw [List.dropWhile_cons_of_pos hc, ih, List.countP_cons_of_neg (by rw [hp c hc]; exact Bool.false_ne_true)]
      · rw [List.dropWhile_cons_of_neg hc]
  rw [trim, List.rdropWhile, List.countP_reverse, front, List.countP_reverse, front]

/-- The first and the last character of a trimmed text are no whitespace. -/
theorem solid_of_trim {text : List Char} (h : trim text = text) :
    (∀ c rest, text = c :: rest → isWhitespace c = false) ∧ ∀ c rest, text = rest ++ [c] → isWhitespace c = false := by
  constructor
  · rintro c rest rfl
    by_contra hc
    have hlen := congrArg List.length ((trim_cons (Bool.not_eq_false _ ▸ hc) rest).symm.trans h)
    have := (trim_sublist rest).length_le
    rw [List.length_cons] at hlen
    omega
  · rintro c rest rfl
    by_contra hc
    have hlen := congrArg List.length ((trim_concat (Bool.not_eq_false _ ▸ hc) rest).symm.trans h)
    have := (trim_sublist rest).length_le
    rw [List.length_append, List.length_singleton] at hlen
    omega

theorem trim_trim (text : List Char) : trim (trim text) = trim text := by
  induction text with
  | nil => rfl
  | cons c text ih =>
    by_cases hc : isWhitespace c = true
    · rw [trim_cons hc, ih]
    · rw [Bool.not_eq_true] at hc
      rw [trim_cons_of_solid hc, trim_cons_of_solid hc, List.rdropWhile_idempotent]

/-! ### Fields -/

/-- The trimmed texts between separators, without the empty ones. -/
def fields (sep : Char) (text : List Char) : List (List Char) := ((text.splitOn sep).map trim).filter (· ≠ [])

/-- Whitespace and separators. -/
def IsBlank (sep c : Char) : Prop := isWhitespace c = true ∨ c = sep

/-- Counts what is no blank. -/
def solid (sep : Char) (text : List Char) : Nat := text.countP fun c => !isWhitespace c && c != sep

section Fields
variable {sep : Char} {l r : List Char}

theorem fields_nil : fields sep [] = [] := by simp [fields, trim]

theorem fields_append_sep : fields sep (l ++ sep :: r) = fields sep l ++ fields sep r := by
  simp only [fields, List.splitOn_append_cons_self, List.map_append, List.filter_append]

theorem fields_of_notMem (h : sep ∉ l) : fields sep l = if trim l = [] then [] else [trim l] := by
  rw [fields, List.splitOn_eq_singleton h]
  by_cases hl : trim l = [] <;> simp [hl]

/-- A text is one piece, or a piece before a separator and a text after it. -/
theorem splitOn_induct (sep : Char) {motive : List Char → Prop} (piece : ∀ l, sep ∉ l → motive l)
    (more : ∀ l r, sep ∉ l → motive r → motive (l ++ sep :: r)) (text : List Char) : motive text := by
  induction hn : text.length using Nat.strong_induction_on generalizing text with
  | h n ih =>
    by_cases h : sep ∈ text
    · rcases List.eq_append_cons_of_mem h with ⟨l, r, rfl, hl⟩
      refine more l r hl (ih r.length ?_ r rfl)
      rw [← hn, List.length_append, List.length_cons]
      omega
    · exact piece text h

theorem fields_cons_blank {c : Char} (h : IsBlank sep c) (text : List Char) :
    fields sep (c :: text) = fields sep text := by
  by_cases hc : c = sep
  · subst hc
    rw [← List.nil_append (c :: text), fields_append_sep, fields_nil, List.nil_append]
  · have hws := h.resolve_right hc
    have one : ∀ l, sep ∉ l → fields sep (c :: l) = fields sep l := by
      intro l hl
      rw [fields_of_notMem hl, fields_of_notMem (List.not_mem_cons_of_ne_of_not_mem (Ne.symm hc) hl), trim_cons hws]
    induction text using splitOn_induct sep with
    | piece l hl => exact one l hl
    | more l r hl ih => rw [← List.cons_append, fields_append_sep, fields_append_sep, one l hl]

theorem fields_concat_blank {c : Char} (h : IsBlank sep c) (text : List Char) :
    fields sep (text ++ [c]) = fields sep text := by
  by_cases hc : c = sep
  · subst hc
    rw [fields_append_sep, fields_nil, List.append_nil]
  · induction text using splitOn_induct sep with
    | piece l hl =>
      have hlc : sep ∉ l ++ [c] := by
        rw [List.mem_append, List.mem_singleton]
        exact not_or.mpr ⟨hl, Ne.symm hc⟩
      rw [fields_of_notMem hl, fields_of_notMem hlc, trim_concat (h.resolve_right hc)]
    | more l r _ ih => rw [List.append_assoc, List.cons_append, fields_append_sep, fields_append_sep, ih]

/-- Blanks before and after a text change none of its fields. -/
theorem fields_blank_append {b : List Char} (h : ∀ c ∈ b, IsBlank sep c) (text : List Char) :
    fields sep (b ++ text) = fields sep text := by
  induction b with
  | nil => rfl
  | cons c b ih =>
    rw [List.cons_append, fields_cons_blank (h c (List.mem_cons_self ..)), ih fun d hd => h d (List.mem_cons_of_mem _ hd)]

theorem fields_append_blank {b : List Char} (h : ∀ c ∈ b, IsBlank sep c) (text : List Char) :
    fields sep (text ++ b) = fields sep text := by
  induction b generalizing text with
  | nil => rw [List.append_nil]
  | cons c b ih =>
    rw [List.append_cons, ih (fun d hd => h d (List.mem_cons_of_mem _ hd)),
      fields_concat_blank (h c (List.mem_cons_self ..))]

theorem mem_fields {f text : List Char} (h : f ∈ fields sep text) : f ≠ [] ∧ sep ∉ f ∧ trim f = f := by
  have one : ∀ l, sep ∉ l → f ∈ fields sep l → f ≠ [] ∧ sep ∉ f ∧ trim f = f := by
    intro l hl hf
    rw [fields_of_notMem hl] at hf
    split at hf
    · cases hf
    · rename_i hne
      rw [List.mem_singleton.mp hf]
      exact ⟨hne, fun hmem => hl ((trim_sublist l).mem hmem), trim_trim l⟩
  induction text using splitOn_induct sep with
  | piece l hl => exact one l hl h
  | more l r hl ih =>
    rw [fields_append_sep, List.mem_append] at h
    exact h.elim (one l hl) ih

theorem fields_field {f : List Char} (hne : f ≠ []) (hsep : sep ∉ f) (htrim : trim f = f) : fields sep f = [f] := by
  rw [fields_of_notMem hsep, htrim, if_neg hne]

/-- A text that starts with no blank starts its first field. -/
theorem fields_cons_solid {c : Char} (hc : ¬IsBlank sep c) (text : List Char) :
    ∃ f rest, fields sep (c :: text) = (c :: f) :: rest := by
  rw [IsBlank, not_or, Bool.not_eq_true] at hc
  have one : ∀ l, sep ∉ l → fields sep (c :: l) = [c :: l.rdropWhile isWhitespace] := by
    intro l hl
    rw [fields_of_notMem (List.not_mem_cons_of_ne_of_not_mem (Ne.symm hc.2) hl), trim_cons_of_solid hc.1,
      if_neg (List.cons_ne_nil _ _)]
  induction text using splitOn_induct sep with
  | piece l hl => exact ⟨_, _, one l hl⟩
  | more l r hl _ =>
    refine ⟨l.rdropWhile isWhitespace, fields sep r, ?_⟩
    rw [← List.cons_append, fields_append_sep, one l hl]
    rfl

/-- The fields of a text have all that is no blank in it. -/
theorem solid_fields (text : List Char) : ((fields sep text).map (solid sep)).sum = solid sep text := by
  have one : ∀ l, sep ∉ l → ((fields sep l).map (solid sep)).sum = solid sep l := by
    intro l hl
    have htrim : solid sep (trim l) = solid sep l := countP_trim (fun c hc => by rw [hc]; rfl) l
    rw [fields_of_notMem hl]
    split
    · rename_i hnil
      rw [← htrim, hnil]
      rfl
    · rw [List.map_singleton, List.sum_singleton, htrim]
  induction text using splitOn_induct sep with
  | piece l hl => exact one l hl
  | more l r hl ih =>
    rw [fields_append_sep, List.map_append, List.sum_append, one l hl, ih, solid, solid, solid, List.countP_append,
      List.countP_cons_of_neg (by simp)]

end Fields

/-! ### Lines -/

/-- `split_inclusive` at line feeds. -/
def rawLines : List Char → List (List Char)
  | [] => []
  | c :: text =>
    if c = '\n' then [c] :: rawLines text
    else match rawLines text with
      | [] => [[c]]
      | line :: lines => (c :: line) :: lines

/-- A line without `\n` or `\r\n` at its end. -/
def stripEnd (line : List Char) : List Char :=
  match line.reverse with
  | '\n' :: '\r' :: rest => rest.reverse
  | '\n' :: rest => rest.reverse
  | _ => line

/-- `str::lines` -/
def lines (text : List Char) : List (List Char) := (rawLines text).map stripEnd

/-- `str::len` -/
def size (text : List Char) : Nat := (text.map Char.utf8Size).sum

theorem flatten_rawLines (text : List Char) : (rawLines text).flatten = text := by
  induction text with
  | nil => rfl
  | cons c text ih =>
    rw [rawLines]
    split
    · rw [List.flatten_cons, ih]
      rfl
    · split <;> rename_i hlines <;> rw [hlines] at ih
      · rw [← ih]
        rfl
      · rw [← ih]
        rfl

theorem rawLines_ne_nil {text line : List Char} (h : line ∈ rawLines text) : line ≠ [] := by
  induction text generalizing line with
  | nil => cases h
  | cons c text ih =>
    rw [rawLines] at h
    split at h
    · rcases List.mem_cons.mp h with rfl | h
      · exact List.cons_ne_nil _ _
      · exact ih h
    · split at h <;> rename_i hlines
      · rw [List.mem_singleton.mp h]
        exact List.cons_ne_nil _ _
      · rcases List.mem_cons.mp h with rfl | h
        · exact List.cons_ne_nil _ _
        · exact ih (hlines ▸ List.mem_cons_of_mem _ h)

/-- A text after a line feed has lines of its own. -/
theorem rawLines_append {l : List Char} (r : List Char) (h : '\n' ∉ l) :
    rawLines (l ++ '\n' :: r) = (l ++ ['\n']) :: rawLines r := by
  induction l with
  | nil => rfl
  | cons c l ih =>
    have hc : c ≠ '\n' := fun heq => h (heq ▸ List.mem_cons_self ..)
    rw [List.cons_append, rawLines, if_neg hc, ih fun hmem => h (List.mem_cons_of_mem _ hmem)]
    rfl

theorem rawLines_of_notMem {l : List Char} (h : '\n' ∉ l) : rawLines l = if l = [] then [] else [l] := by
  induction l with
  | nil => rfl
  | cons c l ih =>
    have hc : c ≠ '\n' := fun heq => h (heq ▸ List.mem_cons_self ..)
    rw [rawLines, if_neg hc, ih fun hmem => h (List.mem_cons_of_mem _ hmem), if_neg (List.cons_ne_nil _ _)]
    cases l <;> rfl

/-- A text is cut into lines at any of its line feeds. -/
theorem rawLines_split (l r : List Char) : rawLines (l ++ '\n' :: r) = rawLines (l ++ ['\n']) ++ rawLines r := by
  induction l using splitOn_induct '\n' with
  | piece l hl => rw [rawLines_append r hl, rawLines_append [] hl, rawLines, List.singleton_append]
  | more l m hl ih =>
    rw [List.append_assoc, List.append_assoc, List.cons_append, List.cons_append, rawLines_append _ hl,
      rawLines_append _ hl, ih, List.cons_append]

/-- Only the last line may lack its line feed. -/
theorem exists_of_mem_rawLines {text : List Char} {ls rest : List (List Char)} (h : rawLines text = ls ++ rest)
    (hrest : rest ≠ []) {line : List Char} (hline : line ∈ ls) : ∃ l, line = l ++ ['\n'] := by
  induction text generalizing ls line with
  | nil =>
    cases List.append_eq_nil_iff.mp h.symm |>.1
    cases hline
  | cons c text ih =>
    cases ls with
    | nil => cases hline
    | cons first ls =>
      rw [rawLines] at h
      split at h
      · rename_i hc
        injection h with hfirst htail
        rcases List.mem_cons.mp hline with rfl | hmem
        · exact ⟨[], by rw [← hfirst, hc]; rfl⟩
        · exact ih htail hmem
      · split at h
        · injection h with _ htail
          exact absurd (List.append_eq_nil_iff.mp htail.symm).2 hrest
        · rename_i line' lines' hlines
          injection h with hfirst htail
          rw [htail] at hlines
          change rawLines text = (line' :: ls) ++ rest at hlines
          rcases List.mem_cons.mp hline with rfl | hmem
          · rcases ih hlines (List.mem_cons_self ..) with ⟨l, rfl⟩
            exact ⟨c :: l, hfirst.symm⟩
          · exact ih hlines (List.mem_cons_of_mem _ hmem)

theorem size_append (l r : List Char) : size (l ++ r) = size l + size r := by
  rw [size, List.map_append, List.sum_append]
  rfl

theorem size_cons (c : Char) (l : List Char) : size (c :: l) = c.utf8Size + size l := rfl

theorem length_le_size (l : List Char) : l.length ≤ size l := by
  induction l with
  | nil => exact le_rfl
  | cons c l ih =>
    have := c.utf8Size_pos
    rw [List.length_cons, size_cons]
    omega

/-- Whether a line ends with a carriage return and a line feed. -/
def endsCrlf (line : List Char) : Bool := decide (['\r', '\n'] <:+ line)

theorem endsCrlf_concat (l : List Char) : endsCrlf (l ++ ['\n']) = decide (['\r'] <:+ l) := by
  rw [endsCrlf, decide_eq_decide]
  constructor
  · rintro ⟨m, hm⟩
    rw [List.append_cons] at hm
    exact ⟨m, List.append_inj_left' hm rfl⟩
  · rintro ⟨m, rfl⟩
    exact ⟨m, by rw [List.append_assoc]; rfl⟩

/-- A line with its line feed loses that and, before it, a carriage return. -/
theorem size_stripEnd (l : List Char) :
    size (stripEnd (l ++ ['\n'])) + 1 + (endsCrlf (l ++ ['\n'])).toNat = size (l ++ ['\n']) := by
  rw [endsCrlf_concat, stripEnd, List.reverse_append, List.reverse_singleton, List.singleton_append]
  split
  · rename_i rest heq
    injection heq with _ heq
    have hl : l = rest.reverse ++ ['\r'] := by rw [← List.reverse_reverse l, heq, List.reverse_cons]
    rw [decide_eq_true ⟨_, hl.symm⟩, hl, size_append, size_append]
    rfl
  · rename_i rest hcr heq
    injection heq with _ heq
    have hl : ¬['\r'] <:+ l := by
      rintro ⟨m, rfl⟩
      rw [List.reverse_append] at heq
      exact hcr m.reverse heq.symm
    rw [decide_eq_false hl, ← heq, List.reverse_reverse, size_append]
    rfl
  · rename_i _ hlf
    exact absurd rfl (hlf l.reverse)

/-- The end of a line is whitespace. -/
theorem trim_stripEnd (line : List Char) : trim (stripEnd line) = trim line := by
  rw [stripEnd]
  split
  · rename_i rest heq
    have hline : line = rest.reverse ++ ['\r'] ++ ['\n'] := by
      rw [← List.reverse_reverse line, heq, List.reverse_cons, List.reverse_cons]
    rw [hline, trim_concat rfl, trim_concat rfl]
  · rename_i rest _ heq
    have hline : line = rest.reverse ++ ['\n'] := by rw [← List.reverse_reverse line, heq, List.reverse_cons]
    rw [hline, trim_concat rfl]
  · rfl

/-- The bytes of lines, when each line end counts as one. -/
def offset (ls : List (List Char)) : Nat := (ls.map fun line => size (stripEnd line) + 1).sum

theorem offset_append (ls rest : List (List Char)) : offset (ls ++ rest) = offset ls + offset rest := by
  rw [offset, List.map_append, List.sum_append]
  rfl

theorem offset_cons (line : List Char) (ls : List (List Char)) :
    offset (line :: ls) = size (stripEnd line) + 1 + offset ls := by
  rw [offset, List.map_cons, List.sum_cons]
  rfl

/-- Without carriage returns no byte is missed. -/
theorem size_le_offset {ls : List (List Char)} (h : ∀ line ∈ ls, '\r' ∉ line) : size ls.flatten ≤ offset ls := by
  induction ls with
  | nil => exact le_rfl
  | cons line ls ih =>
    have hline : size line ≤ size (stripEnd line) + 1 := by
      rw [stripEnd]
      split
      · rename_i rest heq
        have hmem : '\r' ∈ line.reverse := by simp [heq]
        exact absurd (List.mem_reverse.mp hmem) (h line (List.mem_cons_self ..))
      · rename_i rest _ heq
        have hrest : line = rest.reverse ++ ['\n'] := by rw [← List.reverse_reverse line, heq, List.reverse_cons]
        rw [hrest, size_append]
        exact le_rfl
      · exact Nat.le_succ _
    rw [List.flatten_cons, size_append, offset_cons]
    exact Nat.add_le_add hline (ih fun line hline => h line (List.mem_cons_of_mem _ hline))

/-- Lines with their line feeds have one byte more for each carriage return. -/
theorem offset_add_crlfs {ls : List (List Char)} (h : ∀ line ∈ ls, ∃ l, line = l ++ ['\n']) :
    offset ls + ls.countP endsCrlf = size ls.flatten := by
  induction ls with
  | nil => rfl
  | cons line ls ih =>
    rcases h line (List.mem_cons_self ..) with ⟨l, rfl⟩
    have := size_stripEnd l
    rw [offset_cons, List.flatten_cons, size_append, ← ih fun line hline => h line (List.mem_cons_of_mem _ hline),
      List.countP_cons]
    cases hcr : endsCrlf (l ++ ['\n']) <;> rw [hcr] at this
    · simp only [Bool.toNat_false] at this
      simp only [Bool.false_eq_true, if_false]
      omega
    · simp only [Bool.toNat_true] at this
      simp only [if_true]
      omega

/-- One for a last line without a line feed. -/
def unended (ls : List (List Char)) : Nat :=
  match ls.getLast? with
  | some line => if ['\n'] <:+ line then 0 else 1
  | none => 0

theorem unended_le (ls : List (List Char)) : unended ls ≤ 1 := by
  rw [unended]
  split
  · split <;> omega
  · omega

theorem unended_concat (ls : List (List Char)) (line : List Char) :
    unended (ls ++ [line]) = if ['\n'] <:+ line then 0 else 1 := by
  rw [unended, List.getLast?_concat]

theorem unended_of_ends {ls : List (List Char)} (h : ∀ line ∈ ls, ∃ l, line = l ++ ['\n']) : unended ls = 0 := by
  rcases List.eq_nil_or_concat ls with rfl | ⟨ls, line, rfl⟩
  · rfl
  · rw [List.concat_eq_append] at h ⊢
    rw [unended_concat, if_pos]
    obtain ⟨l, rfl⟩ := h line (by simp)
    exact List.suffix_append l _

/-- A line without its line feed is kept whole. -/
theorem stripEnd_of_unended {line : List Char} (h : ¬['\n'] <:+ line) : stripEnd line = line ∧ endsCrlf line = false := by
  have hreverse (rest : List Char) : line.reverse ≠ '\n' :: rest := by
    intro heq
    refine h ⟨rest.reverse, ?_⟩
    rw [← List.reverse_reverse line, heq, List.reverse_cons]
  constructor
  · rw [stripEnd]
    split
    · rename_i rest heq
      exact absurd heq (hreverse _)
    · rename_i rest heq
      exact absurd heq (hreverse _)
    · rfl
  · refine decide_eq_false fun hsuffix => h ?_
    exact List.IsSuffix.trans ⟨['\r'], rfl⟩ hsuffix

/-- A line that ends with a line feed alone loses only that. -/
theorem stripEnd_feed {l : List Char} (h : endsCrlf (l ++ ['\n']) = false) : stripEnd (l ++ ['\n']) = l := by
  rw [endsCrlf_concat] at h
  rw [stripEnd, List.reverse_append, List.reverse_singleton, List.singleton_append]
  split
  · rename_i rest heq
    injection heq with _ heq
    refine absurd ⟨rest.reverse, ?_⟩ (of_decide_eq_false h)
    rw [← List.reverse_reverse l, heq, List.reverse_cons]
  · rename_i rest _ heq
    injection heq with _ heq
    rw [← heq, List.reverse_reverse]
  · rename_i _ hlf
    exact absurd rfl (hlf l.reverse)

/-- The offsets of lines fall short of their sizes by a byte for each carriage return, and run a byte ahead behind a last
    line without a line feed. -/
theorem offset_add_crlfs_eq {text : List Char} {ls rest : List (List Char)} (h : rawLines text = ls ++ rest) :
    offset ls + ls.countP endsCrlf = size ls.flatten + unended ls := by
  rcases List.eq_nil_or_concat ls with rfl | ⟨ls, line, rfl⟩
  · rfl
  · rw [List.concat_eq_append] at h ⊢
    rw [List.append_assoc] at h
    have hls := offset_add_crlfs fun l hl => exists_of_mem_rawLines h (List.cons_ne_nil _ _) hl
    have hnil : offset [] = 0 := rfl
    rw [offset_append, List.countP_append, List.flatten_append, size_append, unended_concat, offset_cons, hnil,
      List.countP_singleton, List.flatten_singleton]
    by_cases hend : ['\n'] <:+ line
    · obtain ⟨l, rfl⟩ := hend
      have hsize := size_stripEnd l
      rw [if_pos (List.suffix_append l _)]
      cases hcr : endsCrlf (l ++ ['\n'])
      · rw [hcr, Bool.toNat_false] at hsize
        simp only [Bool.false_eq_true, if_false]
        omega
      · rw [hcr, Bool.toNat_true] at hsize
        simp only [if_true]
        omega
    · obtain ⟨hstrip, hcr⟩ := stripEnd_of_unended hend
      rw [if_neg hend, hstrip, hcr]
      simp only [Bool.false_eq_true, if_false]
      omega

/-- A text behind a line feed has lines of its own. -/
theorem rawLines_append_of_ends {l : List Char} (h : l = [] ∨ ∃ m, l = m ++ ['\n']) (r : List Char) :
    rawLines (l ++ r) = rawLines l ++ rawLines r := by
  rcases h with rfl | ⟨m, rfl⟩
  · rfl
  · rw [List.append_assoc, List.singleton_append, rawLines_split]

/-! ### Parts of a text -/

/-- What is left of a text after its first `n` bytes. -/
def skip (n : Nat) : List Char → Option (List Char)
  | [] => if n = 0 then some [] else none
  | c :: text =>
    if n = 0 then some (c :: text)
    else if c.utf8Size ≤ n then skip (n - c.utf8Size) text
    else none

/-- The bytes of a text from `start` to `stop`, or to its end. -/
def slice (text : List Char) (start : Nat) (stop : Option Nat) : Option (List Char) := do
  let rest ← skip start text
  match stop with
  | none => return rest
  | some stop => if start ≤ stop then cut (stop - start) rest else none

theorem skip_eq_some {n : Nat} {text r : List Char} (h : skip n text = some r) : ∃ l, text = l ++ r ∧ size l = n := by
  induction text generalizing n with
  | nil =>
    rw [skip] at h
    split at h
    · cases h
      exact ⟨[], rfl, by simp [size, *]⟩
    · cases h
  | cons c text ih =>
    rw [skip] at h
    split at h
    · cases h
      exact ⟨[], rfl, by simp [size, *]⟩
    · split at h
      · rcases ih h with ⟨l, rfl, hl⟩
        refine ⟨c :: l, rfl, ?_⟩
        rw [size_cons, hl]
        omega
      · cases h

theorem cut_eq_some {n : Nat} {text l : List Char} (h : cut n text = some l) : ∃ r, text = l ++ r ∧ size l = n := by
  induction text generalizing n l with
  | nil =>
    rw [cut] at h
    split at h
    · cases h
      exact ⟨[], rfl, by simp [size, *]⟩
    · cases h
  | cons c text ih =>
    rw [cut] at h
    split at h
    · cases h
      exact ⟨c :: text, rfl, by simp [size, *]⟩
    · split at h
      · rcases Option.map_eq_some_iff.mp h with ⟨l, hl, rfl⟩
        rcases ih hl with ⟨r, rfl, hsize⟩
        refine ⟨r, rfl, ?_⟩
        rw [size_cons, hsize]
        omega
      · cases h

theorem skip_append (l r : List Char) : skip (size l) (l ++ r) = some r := by
  induction l with
  | nil => cases r <;> simp [skip, size]
  | cons c l ih =>
    have hc := c.utf8Size_pos
    rw [size_cons, List.cons_append, skip, if_neg (by omega), if_pos (Nat.le_add_right ..), Nat.add_sub_cancel_left, ih]

theorem slice_none_eq_some {text s : List Char} {start : Nat} :
    slice text start none = some s ↔ ∃ l, text = l ++ s ∧ size l = start := by
  constructor
  · intro h
    rcases Option.bind_eq_some_iff.mp h with ⟨rest, hskip, hrest⟩
    cases hrest
    exact skip_eq_some hskip
  · rintro ⟨l, rfl, rfl⟩
    rw [slice, skip_append]
    rfl

theorem slice_eq_some {text s : List Char} {start stop : Nat} :
    slice text start (some stop) = some s ↔ ∃ l r, text = l ++ s ++ r ∧ size l = start ∧ size (l ++ s) = stop := by
  constructor
  · intro h
    rcases Option.bind_eq_some_iff.mp h with ⟨rest, hskip, hrest⟩
    rcases skip_eq_some hskip with ⟨l, rfl, hl⟩
    dsimp only at hrest
    split at hrest
    · rcases cut_eq_some hrest with ⟨r, rfl, hsize⟩
      refine ⟨l, r, (List.append_assoc ..).symm, hl, ?_⟩
      rw [size_append]
      omega
    · cases hrest
  · rintro ⟨l, r, rfl, rfl, rfl⟩
    have hcut : cut (size s) (s ++ r) = some s := cut_append s r
    rw [slice, List.append_assoc, skip_append, Option.bind_eq_bind, Option.bind_some, size_append]
    dsimp only
    rw [if_pos (Nat.le_add_right ..), Nat.add_sub_cancel_left, hcut]

/-- Of two beginnings of a text, the one with fewer bytes begins the other. -/
theorem exists_append_of_size_le {l l' r r' : List Char} (h : l ++ r = l' ++ r') (hsize : size l ≤ size l') :
    ∃ m, l' = l ++ m := by
  rcases List.append_eq_append_iff.mp h with ⟨m, rfl, -⟩ | ⟨m, rfl, -⟩
  · exact ⟨m, rfl⟩
  · have hm : m = [] := by
      have := length_le_size m
      rw [size_append] at hsize
      exact List.length_eq_zero_iff.mp (by omega)
    exact ⟨[], by rw [hm, List.append_nil, List.append_nil]⟩

end Text
