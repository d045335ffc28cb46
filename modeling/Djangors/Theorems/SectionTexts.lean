import Djangors.Migrations.Make

/-! # The texts of a section

What the statements of a section say about its text: its fields, its markers, its carriage returns, and how much of
it is no blank. -/

namespace Djangors.Migrations
open Text

/-! ### Lines of a statement -/

section Lines
variable {l r : List Char}

theorem isMarker_concat (line : List Char) : IsMarker (line ++ ['\n']) ↔ IsMarker line := by
  rw [IsMarker, IsMarker, trim_concat rfl]

theorem not_isMarker_nil : ¬IsMarker [] := by decide

theorem not_isMarker_semicolon (line : List Char) : ¬IsMarker (line ++ [';']) := by
  have hlast : ∀ wanted, trim (line ++ [';']) = marker wanted → ';' ∈ marker wanted := by
    intro wanted h
    rw [← h, trim, List.dropWhile_append]
    split
    · decide
    · rw [List.rdropWhile_concat_neg _ _ _ (by decide)]
      exact List.mem_append_right _ (List.mem_singleton_self _)
  rintro (h | h)
  · exact absurd (hlast _ h) (by decide)
  · exact absurd (hlast _ h) (by decide)

theorem marked_piece (h : '\n' ∉ l) : Marked l ↔ IsMarker l := by
  rw [Marked, rawLines_of_notMem h]
  split
  · rename_i hnil
    simp [hnil, not_isMarker_nil]
  · simp

theorem marked_concat (text : List Char) : Marked (text ++ ['\n']) ↔ Marked text := by
  induction text using splitOn_induct '\n' with
  | piece l hl =>
    rw [marked_piece hl, Marked, rawLines_append [] hl, rawLines]
    simp [isMarker_concat]
  | more l r hl ih =>
    rw [List.append_assoc, List.cons_append, Marked, Marked, rawLines_append _ hl, rawLines_append _ hl]
    simpa [Marked] using or_congr_right ih

theorem marked_append : Marked (l ++ '\n' :: r) ↔ Marked l ∨ Marked r := by
  rw [← marked_concat l, Marked, rawLines_split]
  simp only [List.mem_append, or_and_right, exists_or]
  rfl

/-- A second semicolon makes no difference. -/
theorem marked_semicolon (text : List Char) : Marked (text ++ [';', ';']) ↔ Marked (text ++ [';']) := by
  induction text using splitOn_induct '\n' with
  | piece l hl =>
    have hnot : ∀ t : List Char, '\n' ∉ t → '\n' ∉ l ++ t := by
      intro t ht
      rw [List.mem_append]
      exact not_or.mpr ⟨hl, ht⟩
    rw [marked_piece (hnot _ (by decide)), marked_piece (hnot _ (by decide)), List.append_cons]
    exact iff_of_false (not_isMarker_semicolon _) (not_isMarker_semicolon _)
  | more l r hl ih => rw [List.append_assoc, List.append_assoc, List.cons_append, List.cons_append, marked_append,
      marked_append, ih]

theorem crlfs_append (l r : List Char) : crlfs (l ++ '\n' :: r) = crlfs (l ++ ['\n']) + crlfs r := by
  rw [crlfs, rawLines_split, List.countP_append]
  rfl

theorem crlfs_piece (h : '\n' ∉ l) : crlfs (l ++ [';']) = 0 := by
  have hnot : '\n' ∉ l ++ [';'] := by simp [h]
  rw [crlfs, rawLines_of_notMem hnot, if_neg (by simp), List.countP_singleton, if_neg]
  rw [endsCrlf, decide_eq_true_eq]
  exact fun hsuffix => hnot (hsuffix.subset (by simp))

/-- A line that ends with a semicolon ends with no carriage return. -/
theorem crlfs_line (text : List Char) : crlfs (text ++ [';'] ++ ['\n']) = crlfs (text ++ [';']) := by
  induction text using splitOn_induct '\n' with
  | piece l hl =>
    have hnot : '\n' ∉ l ++ [';'] := by simp [hl]
    have hcr : ¬['\r'] <:+ l ++ [';'] := by
      rintro ⟨m, hm⟩
      exact absurd (List.append_inj_right' hm rfl) (by decide)
    rw [crlfs_piece hl, crlfs, rawLines_append [] hnot, rawLines, List.countP_singleton, endsCrlf_concat,
      decide_eq_false hcr]
    rfl
  | more l r hl ih =>
    rw [List.append_assoc, List.append_assoc, List.cons_append, crlfs_append, ← List.append_assoc, ih, List.append_assoc,
      List.cons_append, crlfs_append l (r ++ [';'])]

theorem crlfs_semicolon (text : List Char) : crlfs (text ++ [';', ';']) = crlfs (text ++ [';']) := by
  induction text using splitOn_induct '\n' with
  | piece l hl =>
    have hnot : '\n' ∉ l ++ [';'] := by simp [hl]
    rw [List.append_cons, crlfs_piece hnot, crlfs_piece hl]
  | more l r hl ih =>
    rw [List.append_assoc, List.append_assoc, List.cons_append, List.cons_append, crlfs_append, ih,
      crlfs_append l (r ++ [';'])]

end Lines

/-! ### The texts of a section -/

/-- A statement starts with a letter of a keyword. -/
def Starts (sql : List Char) : Prop := ∃ c rest, sql = c :: rest ∧ c.isUpper = true

/-- Texts of a section, and the statements in them. A text without a statement is empty. -/
inductive Written : List (List Char) → List (List Char) → Prop
  | nil : Written [] []
  | statement {x t : List Char} {texts sqls : List (List Char)} (starts : Starts x) (terminator : t = [] ∨ t = [';'])
      (more : Written texts sqls) : Written ((x ++ [';'] ++ t) :: texts) ((x ++ [';']) :: sqls)
  | blank {texts sqls : List (List Char)} (more : Written texts sqls) : Written ([] :: texts) sqls

def join (texts : List (List Char)) : List Char := ['\n'].intercalate texts

section Written
variable {texts texts' sqls sqls' : List (List Char)} {t x : List Char}

theorem Written.append (h : Written texts sqls) (h' : Written texts' sqls') :
    Written (texts ++ texts') (sqls ++ sqls') := by
  induction h with
  | nil => exact h'
  | statement starts terminator _ ih => exact .statement starts terminator ih
  | blank _ ih => exact .blank ih

theorem Written.starts (h : Written texts sqls) : ∀ sql ∈ sqls, ∃ x, sql = x ++ [';'] ∧ Starts x := by
  induction h with
  | nil => exact nofun
  | statement starts _ _ ih => exact List.forall_mem_cons.mpr ⟨⟨_, rfl, starts⟩, ih⟩
  | blank _ ih => exact ih

theorem join_cons (t : List Char) (texts : List (List Char)) :
    join (t :: texts) = if texts = [] then t else t ++ '\n' :: join texts := by
  cases texts <;> simp [join]

theorem solid_append (l r : List Char) : solid ';' (l ++ r) = solid ';' l + solid ';' r := List.countP_append

theorem solid_newline (text : List Char) : solid ';' (text ++ ['\n']) = solid ';' text := by
  rw [solid_append]
  rfl

theorem solid_of_blank (h : ∀ c ∈ t, IsBlank ';' c) : solid ';' t = 0 := by
  rw [solid, List.countP_eq_zero]
  intro c hc
  rcases h c hc with hws | rfl
  · simp [hws]
  · simp

theorem blank_terminator (h : t = [] ∨ t = [';']) : ∀ c ∈ t, IsBlank ';' c := by
  rcases h with rfl | rfl
  · nofun
  · intro c hc
    exact .inr (List.mem_singleton.mp hc)

theorem fields_statement (x : List Char) : fields ';' (x ++ [';']) = fields ';' x := by
  rw [fields_append_sep, fields_nil, List.append_nil]

/-- The fields of a section are those of its statements. -/
theorem fields_join (h : Written texts sqls) : fields ';' (join texts) = sqls.flatMap (fields ';') := by
  induction h with
  | nil => exact fields_nil
  | @statement x t texts _ _ terminator _ ih =>
    have hblank := blank_terminator terminator
    rw [List.flatMap_cons, ← ih, join_cons, fields_statement]
    split
    · rename_i hnil
      rw [hnil, List.append_assoc, List.singleton_append, fields_append_sep, ← List.append_nil t,
        fields_blank_append hblank]
      rfl
    · rw [List.append_assoc, List.append_assoc, List.singleton_append, fields_append_sep, List.append_cons,
        fields_blank_append]
      intro c hc
      rcases List.mem_append.mp hc with hc | hc
      · exact hblank c hc
      · exact .inl (List.mem_singleton.mp hc ▸ rfl)
  | @blank texts _ _ ih =>
    rw [← ih, join_cons]
    split
    · rename_i hnil
      rw [hnil]
      rfl
    · exact fields_cons_blank (.inl rfl) _

theorem solid_join (h : Written texts sqls) : solid ';' (join texts) = (sqls.map (solid ';')).sum := by
  rw [← solid_fields, fields_join h]
  clear h
  induction sqls with
  | nil => rfl
  | cons sql sqls ih => rw [List.flatMap_cons, List.map_append, List.sum_append, ih, solid_fields, List.map_cons, List.sum_cons]

theorem marked_nil : ¬Marked [] := nofun

theorem marked_join_cons (t : List Char) (texts : List (List Char)) :
    Marked (join (t :: texts)) ↔ Marked t ∨ Marked (join texts) := by
  rw [join_cons]
  split
  · rename_i hnil
    rw [hnil]
    exact (or_iff_left marked_nil).symm
  · exact marked_append

theorem marked_join (h : Written texts sqls) : Marked (join texts) ↔ ∃ sql ∈ sqls, Marked sql := by
  induction h with
  | nil => exact iff_of_false marked_nil (by simp)
  | @statement x t texts _ _ terminator _ ih =>
    rw [marked_join_cons, ih, List.exists_mem_cons_iff]
    refine or_congr_left ?_
    rcases terminator with rfl | rfl
    · rw [List.append_nil]
    · rw [List.append_assoc]
      exact marked_semicolon x
  | blank _ ih => rw [marked_join_cons, ih, or_iff_right marked_nil]

theorem crlfs_join_cons (t : List Char) (texts : List (List Char)) :
    crlfs (join (t :: texts) ++ ['\n']) = crlfs (t ++ ['\n']) + crlfs (join texts ++ ['\n']) := by
  rw [join_cons]
  split
  · rename_i hnil
    rw [hnil]
    rfl
  · rw [List.append_assoc, List.cons_append, crlfs_append]

theorem crlfs_join (h : Written texts sqls) : crlfs (join texts ++ ['\n']) = (sqls.map crlfs).sum := by
  induction h with
  | nil => rfl
  | @statement x t texts _ _ terminator _ ih =>
    rw [crlfs_join_cons, ih, List.map_cons, List.sum_cons, ← crlfs_line]
    rcases terminator with rfl | rfl
    · rw [List.append_nil]
    · rw [crlfs_line, crlfs_line, List.append_assoc, List.singleton_append, crlfs_semicolon]
  | blank _ ih =>
    rw [crlfs_join_cons, ih]
    exact Nat.zero_add _

/-- Only line feeds come before the first statement. -/
theorem start_join (h : Written texts sqls) : ∃ b rest, join texts = b ++ rest ∧ (∀ c ∈ b, c = '\n') ∧
    (Starts rest ∨ rest = [] ∧ sqls = []) := by
  induction h with
  | nil => exact ⟨[], [], rfl, nofun, .inr ⟨rfl, rfl⟩⟩
  | @statement x t texts _ starts _ _ _ =>
    rcases starts with ⟨c, rest, rfl, hc⟩
    refine ⟨[], join ((c :: rest ++ [';'] ++ t) :: texts), rfl, nofun, .inl ?_⟩
    rw [join_cons]
    by_cases hnil : texts = []
    · rw [if_pos hnil]
      exact ⟨c, _, rfl, hc⟩
    · rw [if_neg hnil]
      exact ⟨c, _, rfl, hc⟩
  | @blank texts _ _ ih =>
    rcases ih with ⟨b, rest, hjoin, hb, hrest⟩
    rw [join_cons]
    split
    · rename_i hnil
      rw [hnil] at hjoin
      rcases List.append_eq_nil_iff.mp hjoin.symm with ⟨rfl, rfl⟩
      exact ⟨[], [], rfl, nofun, hrest⟩
    · exact ⟨'\n' :: b, rest, by rw [hjoin]; rfl, List.forall_mem_cons.mpr ⟨rfl, hb⟩, hrest⟩

/-! ### Reading and counting -/

theorem solid_statements (s : List Char) : ((statements s).map (solid ';')).sum = solid ';' s := by
  rw [statements, List.map_map, ← solid_fields]
  congr 1
  refine List.map_congr_left fun f _ => ?_
  rw [Function.comp_apply, solid_append]
  rfl

/-- The statements of a section that are read back are whole. -/
theorem whole_of_statements {s : List Char} (h : statements s = sqls) :
    ∀ sql ∈ sqls, ';' ∉ sql.dropLast ∧ trim sql.dropLast = sql.dropLast := by
  intro sql hsql
  rw [← h] at hsql
  rcases List.mem_map.mp hsql with ⟨f, hf, rfl⟩
  rw [List.dropLast_concat]
  exact (mem_fields hf).2

/-- Whole statements are read back from a text with their fields. -/
theorem statements_of_whole (h : Written texts sqls)
    (whole : ∀ sql ∈ sqls, ';' ∉ sql.dropLast ∧ trim sql.dropLast = sql.dropLast) {s : List Char}
    (hs : fields ';' s = fields ';' (join texts)) : statements s = sqls := by
  rw [statements, hs, fields_join h]
  have starts := h.starts
  clear h hs
  induction sqls with
  | nil => rfl
  | cons sql sqls ih =>
    rw [List.forall_mem_cons] at whole starts
    rcases starts.1 with ⟨x, rfl, c, rest, rfl, -⟩
    have hwhole := whole.1
    rw [List.dropLast_concat] at hwhole
    rw [List.flatMap_cons, List.map_append, ih whole.2 starts.2, fields_statement,
      fields_field (List.cons_ne_nil _ _) hwhole.1 hwhole.2]
    rfl

end Written

end Djangors.Migrations
