import Djangors.Lib.Except
import Djangors.Theorems.Sections
import Djangors.Theorems.SectionTexts

/-! # Reading a generated file back

The writer escapes nothing, so a statement is read back when it holds nothing that the reader takes for a
separator; what is no blank is counted on both sides. -/

namespace Djangors.Migrations
open Db Orm Text

/-! ### Cutting a file -/

section Cutting
variable {wanted : String} {ls pre post rest before body : List (List Char)} {m : List Char} {L l s y q : List Char}

theorem cutLines_none (hw : ∀ line, trim line = marker wanted → IsMarker line) (unmarked : ∀ line ∈ ls, ¬IsMarker line) :
    cutLines wanted (ls ++ rest) before none = cutLines wanted rest (before ++ ls) none := by
  induction ls generalizing before with
  | nil => rw [List.append_nil]; rfl
  | cons line ls ih =>
    rw [List.forall_mem_cons] at unmarked
    rw [List.cons_append, cutLines_cons, if_neg fun h => unmarked.1 (hw line h)]
    dsimp only
    rw [ih unmarked.2, List.append_assoc]
    rfl

theorem cutLines_some (hw : ∀ line, trim line = marker wanted → IsMarker line) (unmarked : ∀ line ∈ ls, ¬IsMarker line) :
    cutLines wanted (ls ++ rest) before (some body) = cutLines wanted rest before (some (body ++ ls)) := by
  induction ls generalizing body with
  | nil => rw [List.append_nil]; rfl
  | cons line ls ih =>
    rw [List.forall_mem_cons] at unmarked
    rw [List.cons_append, cutLines_cons, if_neg fun h => unmarked.1 (hw line h)]
    dsimp only
    rw [if_neg (show ¬(_ ∨ _) from unmarked.1), ih unmarked.2, List.append_assoc]
    rfl

/-- A section that has started ends where its lines end at the latest. -/
theorem cutLines_bounds (ls before body : List (List Char)) (rest : List (List Char)) (hm : trim m = marker "down") :
    ∃ cut, cutLines "up" (ls ++ m :: rest) before (some body) = some cut ∧ before <+: cut.before ∧
      cut.before ++ cut.body <+: before ++ body ++ ls ∧ cut.after ≠ [] := by
  induction ls generalizing before body with
  | nil =>
    refine ⟨⟨before, body, m :: rest⟩, ?_, List.prefix_refl _, ?_, List.cons_ne_nil _ _⟩
    · rw [List.nil_append, cutLines_cons, if_neg (by rw [hm]; decide)]
      dsimp only
      rw [if_pos (.inl hm)]
    · rw [List.append_nil]
  | cons line ls ih =>
    have hmore : before ++ body ++ line :: ls = before ++ body ++ [line] ++ ls := by rw [List.append_assoc _ [line]]; rfl
    rw [List.cons_append, cutLines_cons, hmore]
    split
    · rcases ih (before ++ body ++ [line]) [] with ⟨cut, hcut, hbefore, hbody, hafter⟩
      rw [List.append_nil] at hbody
      refine ⟨cut, hcut, .trans ?_ hbefore, hbody, hafter⟩
      rw [List.append_assoc]
      exact List.prefix_append _ _
    · dsimp only
      split
      · refine ⟨_, rfl, List.prefix_refl _, ?_, List.cons_ne_nil _ _⟩
        rw [List.append_assoc]
        exact List.prefix_append _ _
      · rcases ih before (body ++ [line]) with ⟨cut, hcut, hbefore, hbody, hafter⟩
        rw [← List.append_assoc] at hbody
        exact ⟨cut, hcut, hbefore, hbody, hafter⟩

/-- A section that has started is found. -/
theorem cutLines_found (wanted : String) (ls before body : List (List Char)) :
    ∃ cut, cutLines wanted ls before (some body) = some cut ∧ before <+: cut.before := by
  induction ls generalizing before body with
  | nil => exact ⟨_, rfl, List.prefix_refl _⟩
  | cons line ls ih =>
    rw [cutLines_cons]
    split
    · rcases ih (before ++ body ++ [line]) [] with ⟨cut, hcut, hbefore⟩
      refine ⟨cut, hcut, .trans ?_ hbefore⟩
      rw [List.append_assoc]
      exact List.prefix_append _ _
    · dsimp only
      split
      · exact ⟨_, rfl, List.prefix_refl _⟩
      · exact ih before (body ++ [line])

theorem first_marker (h : Marked L) :
    ∃ pre m post, rawLines L = pre ++ m :: post ∧ (∀ line ∈ pre, ¬IsMarker line) ∧ IsMarker m := by
  rcases h with ⟨line, hline, hmarker⟩
  cases hfind : (rawLines L).find? fun line => decide (IsMarker line) with
  | none => exact absurd (decide_eq_true hmarker) (List.find?_eq_none.mp hfind line hline)
  | some m =>
    rcases List.find?_eq_some_iff_append.mp hfind with ⟨hm, pre, post, hlines, hpre⟩
    exact ⟨pre, m, post, hlines, fun line hline => by simpa using hpre line hline, of_decide_eq_true hm⟩

/-- Two beginnings of a text with as many bytes are the same. -/
theorem eq_of_size_eq {l l' r r' : List Char} (h : l ++ r = l' ++ r') (hsize : size l = size l') : l = l' := by
  rcases exists_append_of_size_le h hsize.le with ⟨x, rfl⟩
  have hx := length_le_size x
  rw [size_append] at hsize
  rw [List.length_eq_zero_iff.mp (show x.length = 0 by omega), List.append_nil]

theorem solid_marker (h : IsMarker m) : 0 < solid ';' m := by
  have htrim : solid ';' m = solid ';' (trim m) := (countP_trim (fun c hc => by rw [hc]; rfl) m).symm
  rw [htrim]
  rcases h with h | h <;> rw [h] <;> decide

/-- When a line that starts or ends a section is among the lines of a text, what ends before it misses something. -/
theorem solid_lt_of_end (hlines : rawLines L = pre ++ m :: post) (hm : IsMarker m) (hq : solid ';' q = 0)
    (h : q ++ pre.flatten = s ++ y) : solid ';' s < solid ';' L := by
  have hpos := solid_marker hm
  have hL : L = pre.flatten ++ (m ++ post.flatten) := by
    rw [← flatten_rawLines L, hlines, List.flatten_append, List.flatten_cons]
  have hsum := congrArg (solid ';') h
  rw [solid_append, solid_append] at hsum
  rw [hL, solid_append, solid_append]
  omega

theorem length_le_offset (ls : List (List Char)) : ls.length ≤ offset ls := by
  induction ls with
  | nil => exact le_rfl
  | cons line ls ih =>
    rw [offset_cons, List.length_cons]
    omega

theorem offset_le_of_prefix {ls ls' : List (List Char)} (h : ls <+: ls') : offset ls ≤ offset ls' := by
  rcases h with ⟨more, rfl⟩
  rw [offset_append]
  exact Nat.le_add_right ..

theorem utf8Size_of_isUpper {c : Char} (h : c.isUpper = true) : c.utf8Size = 1 := by
  have hle : c.val ≤ 'Z'.val := (of_decide_eq_true h).2
  exact if_pos (UInt32.le_trans hle (by decide))

theorem not_isBlank_of_isUpper {c : Char} (h : c.isUpper = true) : ¬IsBlank ';' c := by
  have hbounds : 'A'.val ≤ c.val ∧ c.val ≤ 'Z'.val := of_decide_eq_true h
  rw [UInt32.le_iff_toNat_le, UInt32.le_iff_toNat_le] at hbounds
  have hlow : 65 ≤ c.toNat := hbounds.1
  have hhigh : c.toNat ≤ 90 := hbounds.2
  rintro (hws | rfl)
  · simp only [isWhitespace, Bool.or_eq_true, Bool.and_eq_true, decide_eq_true_eq, beq_iff_eq] at hws
    omega
  · cases h

theorem solid_cons_upper {c : Char} (h : c.isUpper = true) (text : List Char) :
    solid ';' (c :: text) = solid ';' text + 1 := by
  have hc := not_isBlank_of_isUpper h
  rw [IsBlank, not_or, Bool.not_eq_true] at hc
  exact List.countP_cons_of_pos (by simp [hc])

theorem rawLines_newlines {b : List Char} (hb : ∀ c ∈ b, c = '\n') (r : List Char) :
    rawLines (b ++ r) = List.replicate b.length ['\n'] ++ rawLines r := by
  induction b with
  | nil => rfl
  | cons c b ih =>
    rw [List.forall_mem_cons] at hb
    rw [hb.1, List.cons_append, rawLines, if_pos rfl, ih hb.2]
    rfl

/-- When a line that starts or ends a section is among the lines of a text, what starts after it misses something, by
    three bytes at least. -/
theorem solid_lt_of_start {b r : List Char} (hlines : rawLines L = pre ++ m :: post) (hm : IsMarker m)
    (hL : L = b ++ r) (hb : ∀ c ∈ b, c = '\n') (hr : Starts r) (hsize : size before.flatten ≤ offset before + 3)
    (h : before.flatten ++ L = l ++ s ++ y) (hl : offset (before ++ pre ++ [m]) ≤ size l) :
    solid ';' s < solid ';' L := by
  -- The first letter comes before the marker.
  have hlen : b.length ≤ pre.length := by
    by_contra hlt
    have hget : (rawLines L)[pre.length]? = some m := by rw [hlines, List.getElem?_append_right le_rfl]; simp
    rw [hL, rawLines_newlines hb, List.getElem?_append_left (by simpa using hlt),
      List.getElem?_replicate_of_lt (by omega)] at hget
    cases hget
    exact absurd hm (by decide)
  have hpre : pre.length ≤ offset pre := length_le_offset pre
  have hbsize : size b = b.length := by
    rw [List.eq_replicate_of_mem hb, size, List.map_replicate, List.sum_replicate, List.length_replicate]
    exact Nat.mul_one _
  have hmarker : 5 ≤ size (stripEnd m) := by
    have hlen := (trim_sublist (stripEnd m)).length_le
    have hsize := length_le_size (stripEnd m)
    have hfive : 5 ≤ (trim (stripEnd m)).length := by
      rw [trim_stripEnd]
      rcases hm with hm | hm <;> rw [hm] <;> decide
    omega
  rcases hr with ⟨c, rest, rfl, hc⟩
  have hcsize : size [c] = 1 := utf8Size_of_isUpper hc
  have hle : size (before.flatten ++ b ++ [c]) ≤ size l := by
    rw [offset_append, offset_append, offset_cons] at hl
    rw [size_append, size_append, hcsize, hbsize]
    omega
  have htext : before.flatten ++ b ++ [c] ++ rest = l ++ (s ++ y) := by
    rw [← List.append_assoc, ← h, hL, List.append_assoc, List.append_assoc]
    rfl
  rcases exists_append_of_size_le htext hle with ⟨l', hl'⟩
  rw [hl', List.append_assoc _ l', List.append_cancel_left_eq] at htext
  rw [hL, htext, solid_append, solid_cons_upper hc, solid_append, solid_append]
  omega

end Cutting

/-! ### The two sections of a file -/

def upLine : List Char := "-- up\n".toList

def downLine : List Char := "-- down\n".toList

theorem size_upLine : offset [upLine] = size [upLine].flatten := by decide

/-- A file with the texts of its two sections. -/
def fileText (U D : List Char) : List Char := upLine ++ U ++ '\n' :: downLine ++ D

section Reading
variable {texts sqls : List (List Char)} {U D s : List Char}

theorem fileText_up : fileText U D = [upLine].flatten ++ (U ++ ['\n']) ++ (downLine ++ D) := by simp [fileText]

theorem rawLines_fileText (U D : List Char) :
    rawLines (fileText U D) = upLine :: (rawLines (U ++ ['\n']) ++ downLine :: rawLines D) := by
  have hup : fileText U D = "-- up".toList ++ '\n' :: (U ++ '\n' :: ("-- down".toList ++ '\n' :: D)) := by
    rw [fileText, List.append_assoc, List.append_assoc]
    rfl
  rw [hup, rawLines_append _ (by decide), rawLines_split, rawLines_append D (show '\n' ∉ "-- down".toList by decide)]
  rfl

theorem cutOf_up : cutOf (fileText U D) "up" =
    cutLines "up" (rawLines (U ++ ['\n']) ++ downLine :: rawLines D) [upLine] (some []) := by
  rw [cutOf, rawLines_fileText, cutLines_cons, if_pos (by decide)]
  rfl

theorem marks_up (line : List Char) (h : trim line = marker "up") : IsMarker line := .inr h

theorem marks_down (line : List Char) (h : trim line = marker "down") : IsMarker line := .inl h

theorem cutOf_up_unmarked (unmarked : ¬Marked (U ++ ['\n'])) : cutOf (fileText U D) "up" =
    some ⟨[upLine], rawLines (U ++ ['\n']), downLine :: rawLines D⟩ := by
  have hlines : ∀ line ∈ rawLines (U ++ ['\n']), ¬IsMarker line := fun line hline hm => unmarked ⟨line, hline, hm⟩
  rw [cutOf_up, cutLines_some marks_up hlines, cutLines_cons, if_neg (by decide)]
  rfl

theorem cutOf_down (unmarked : ¬Marked (U ++ ['\n'])) : cutOf (fileText U D) "down" =
    cutLines "down" (rawLines D) ([upLine] ++ rawLines (U ++ ['\n']) ++ [downLine]) (some []) := by
  have hlines : ∀ line ∈ rawLines (U ++ ['\n']), ¬IsMarker line := fun line hline hm => unmarked ⟨line, hline, hm⟩
  rw [cutOf, rawLines_fileText, cutLines_cons, if_neg (by decide)]
  dsimp only
  rw [cutLines_none marks_down hlines, cutLines_cons, if_pos (by decide), Option.getD_none, List.append_nil]
  rfl

theorem cutOf_down_unmarked (unmarked : ¬Marked (U ++ ['\n'])) (unmarked' : ¬Marked D) :
    cutOf (fileText U D) "down" = some ⟨[upLine] ++ rawLines (U ++ ['\n']) ++ [downLine], rawLines D, []⟩ := by
  have hlines : ∀ line ∈ rawLines D, ¬IsMarker line := fun line hline hm => unmarked' ⟨line, hline, hm⟩
  rw [cutOf_down unmarked, ← List.append_nil (rawLines D), cutLines_some marks_down hlines]
  simp [cutLines]

/-- Every line of the up section has its line feed. -/
theorem offset_up (U : List Char) : offset (rawLines (U ++ ['\n'])) + crlfs (U ++ ['\n']) = size (U ++ ['\n']) := by
  have hlines : rawLines (U ++ '\n' :: []) = rawLines (U ++ ['\n']) ++ rawLines [] := rawLines_split U []
  have hcomplete : ∀ line ∈ rawLines (U ++ ['\n']), ∃ l, line = l ++ ['\n'] := by
    intro line hline
    have hmore : rawLines (U ++ '\n' :: downLine) = rawLines (U ++ ['\n']) ++ rawLines downLine := rawLines_split U _
    exact exists_of_mem_rawLines hmore (by decide) hline
  rw [crlfs, offset_add_crlfs hcomplete, flatten_rawLines]

/-- The last statement of a section ends at most three bytes before the section does. -/
theorem end_join (h : Written texts sqls) (filled : ∀ t ∈ texts, t ≠ [])
    (whole : ∀ sql ∈ sqls, ';' ∉ sql.dropLast ∧ trim sql.dropLast = sql.dropLast) :
    texts = [] ∨ ∃ M c w, join texts ++ ['\n'] = M ++ c :: w ∧ solid ';' [c] = 1 ∧ size w ≤ 3 := by
  induction h with
  | nil => exact .inl rfl
  | @statement x t texts _ starts terminator _ ih =>
    rw [List.forall_mem_cons] at filled whole
    right
    rw [join_cons]
    split
    · have hwhole := whole.1
      rw [List.dropLast_concat] at hwhole
      rcases List.eq_nil_or_concat' x with rfl | ⟨M, c, rfl⟩
      · rcases starts with ⟨c, rest, hnil, -⟩
        cases hnil
      · have hws := (solid_of_trim hwhole.2).2 c M rfl
        have hsep : c ≠ ';' := fun heq => hwhole.1 (by simp [heq])
        refine ⟨M, c, ';' :: (t ++ ['\n']), by simp, ?_, ?_⟩
        · simp [solid, hws, hsep]
        · rcases terminator with rfl | rfl <;> decide
    · rename_i hne
      rcases ih filled.2 whole.2 with hnil | ⟨M, c, w, hjoin, hc, hw⟩
      · exact absurd hnil hne
      · refine ⟨x ++ [';'] ++ t ++ '\n' :: M, c, w, ?_, hc, hw⟩
        rw [List.append_assoc, List.cons_append, hjoin, List.append_assoc _ ('\n' :: M)]
        rfl
  | blank _ ih => exact absurd rfl (filled _ (List.mem_cons_self ..))

/-- An up section that is read back is whole, holds no marker, and has at most three carriage returns. -/
theorem up_read (hU : Written texts sqls) (filled : ∀ t ∈ texts, t ≠ [])
    (h : sectionOf (fileText (join texts) D) "up" = some s) (hs : statements s = sqls) :
    (∀ sql ∈ sqls, ';' ∉ sql.dropLast ∧ trim sql.dropLast = sql.dropLast) ∧ ¬Marked (join texts ++ ['\n']) ∧
      crlfs (join texts ++ ['\n']) ≤ 3 := by
  have whole := whole_of_statements hs
  have hsolid : solid ';' s = solid ';' (join texts ++ ['\n']) := by
    rw [solid_newline, solid_join hU, ← hs, solid_statements]
  have htext := @fileText_up (join texts) D
  have unmarked : ¬Marked (join texts ++ ['\n']) := by
    intro marked
    rcases first_marker marked with ⟨pre, m, post, hlines, hpre, hm⟩
    refine absurd hsolid (Nat.ne_of_lt ?_)
    have hflat : join texts ++ ['\n'] = pre.flatten ++ (m ++ post.flatten) := by
      rw [← flatten_rawLines (join texts ++ ['\n']), hlines, List.flatten_append, List.flatten_cons]
    have hcut := @cutOf_up (join texts) D
    rw [hlines, List.append_assoc, List.cons_append, cutLines_some marks_up hpre, cutLines_cons] at hcut
    by_cases hup : trim m = marker "up"
    · -- The section starts again after the marker.
      rw [if_pos hup] at hcut
      rcases cutLines_bounds post ([upLine] ++ pre ++ [m]) [] (rawLines D) (by decide : trim downLine = marker "down")
        with ⟨cut, hfound, hbefore, hbody, hafter⟩
      rcases sectionOf_parts (hcut.trans hfound) h with ⟨l, r, hl, hsize, -, hstop⟩
      have hend : size (l ++ s) ≤ size ([upLine].flatten ++ (join texts ++ ['\n'])) := by
        have hle := offset_le_of_prefix hbody
        rw [List.append_nil, List.append_assoc, List.append_assoc, List.singleton_append (l := post), ← hlines,
          offset_append [upLine]] at hle
        rw [hstop hafter, size_append]
        have := offset_up (join texts)
        have := size_upLine
        omega
      rcases exists_append_of_size_le (hl.symm.trans htext) hend with ⟨y, hy⟩
      rcases start_join hU with ⟨b, r', hjoin, hb, hstarts | ⟨rfl, rfl⟩⟩
      · refine solid_lt_of_start (r := r' ++ ['\n']) hlines hm ?_ hb ?_ (by decide) hy ?_
        · rw [hjoin, List.append_assoc]
        · rcases hstarts with ⟨c, rest, rfl, hc⟩
          exact ⟨c, _, rfl, hc⟩
        · rw [hsize]
          exact offset_le_of_prefix hbefore
      · exact absurd ((marked_join hU).mp ((marked_concat _).mp marked)) (by simp)
    · -- The section ends before the marker.
      rw [if_neg hup] at hcut
      dsimp only at hcut
      rw [if_pos (show _ ∨ _ from hm)] at hcut
      rcases sectionOf_parts hcut h with ⟨l, r, hl, hsize, -, hstop⟩
      rw [List.append_assoc] at hl htext
      obtain rfl := eq_of_size_eq (hl.symm.trans htext) (hsize.trans size_upLine)
      rw [htext, List.append_cancel_left_eq, hflat, List.append_assoc] at hl
      have hend : size s ≤ size pre.flatten := by
        have hbefore := size_before hlines (List.cons_ne_nil _ _)
        have hstop := hstop (List.cons_ne_nil _ _)
        rw [size_append, offset_append, List.nil_append, hsize] at hstop
        dsimp only at hstop
        omega
      rcases exists_append_of_size_le hl.symm hend with ⟨y, hy⟩
      exact solid_lt_of_end (q := []) hlines hm rfl hy
  refine ⟨whole, unmarked, ?_⟩
  rcases sectionOf_parts (cutOf_up_unmarked unmarked) h with ⟨l, r, hl, hsize, -, hstop⟩
  rw [List.append_assoc] at hl htext
  obtain rfl := eq_of_size_eq (hl.symm.trans htext) (hsize.trans size_upLine)
  have hall := offset_up (join texts)
  have hstop := hstop (List.cons_ne_nil _ _)
  rw [size_append, offset_append, hsize] at hstop
  dsimp only at hstop
  rw [htext, List.append_cancel_left_eq] at hl
  rcases exists_append_of_size_le hl.symm (show size s ≤ size (join texts ++ ['\n']) by omega) with ⟨y, hy⟩
  -- What is missing at the end is no more than what comes after the last statement.
  have hmissing : crlfs (join texts ++ ['\n']) = size y := by
    have hsum := congrArg size hy
    rw [size_append s] at hsum
    omega
  rw [hmissing]
  rw [hy, solid_append] at hsolid
  rcases end_join hU filled whole with rfl | ⟨M, c, w, hjoin, hc, hw⟩
  · rw [← hmissing]
    decide
  · rw [hy, List.append_cons] at hjoin
    rcases List.append_eq_append_iff.mp hjoin with ⟨z, hz, rfl⟩ | ⟨z, rfl, rfl⟩
    · rcases List.eq_nil_or_concat' z with rfl | ⟨z', c', rfl⟩
      · exact hw
      · rw [← List.append_assoc] at hz
        have hlast := (List.append_inj' hz rfl).2
        cases hlast
        rw [solid_append, solid_append, hc] at hsolid
        omega
    · rw [size_append] at hw
      omega

/-- The lines before the down section. -/
def downBefore (U : List Char) : List (List Char) := [upLine] ++ rawLines (U ++ ['\n']) ++ [downLine]

theorem fileText_down : fileText U D = (downBefore U).flatten ++ D := by
  rw [downBefore, List.flatten_append, List.flatten_append, flatten_rawLines]
  simp [fileText]

theorem offset_downBefore (U : List Char) :
    offset (downBefore U) + crlfs (U ++ ['\n']) = size (downBefore U).flatten := by
  have hall := offset_up U
  have hup := size_upLine
  have hdown : offset [downLine] = size [downLine].flatten := by decide
  rw [downBefore, offset_append, offset_append, List.flatten_append, List.flatten_append, flatten_rawLines, size_append,
    size_append]
  omega

/-- The file before the down section ends with the last letters of the marker. -/
theorem exists_downBefore (U : List Char) : ∃ P, (downBefore U).flatten = P ++ ['w', 'n', '\n'] := by
  have hdown : [downLine].flatten = "-- do".toList ++ ['w', 'n', '\n'] := by decide
  refine ⟨[upLine].flatten ++ (U ++ ['\n']) ++ "-- do".toList, ?_⟩
  rw [downBefore, List.flatten_append, List.flatten_append, flatten_rawLines, hdown, ← List.append_assoc]

/-- When the down section starts too early, it starts with a letter of the marker. -/
theorem crlfs_le_one {l r : List Char} (hD : Written texts sqls) (few : crlfs (U ++ ['\n']) ≤ 3)
    (hl : (downBefore U).flatten ++ D = l ++ (s ++ r)) (hsize : size l = offset (downBefore U)) (hne : s ≠ [])
    (hs : statements s = sqls) : crlfs (U ++ ['\n']) ≤ 1 := by
  by_contra hmany
  have hoffset := offset_downBefore U
  rcases exists_downBefore U with ⟨P, hP⟩
  have hsizeP : size (downBefore U).flatten = size P + 3 := by
    rw [hP, size_append]
    rfl
  have hletter : ∃ c rest, s = c :: rest ∧ (c = 'n' ∨ c = 'w') := by
    rcases List.exists_cons_of_ne_nil hne with ⟨c, rest, rfl⟩
    refine ⟨c, rest, rfl, ?_⟩
    rw [hP, List.append_assoc] at hl
    rcases Nat.lt_or_ge (crlfs (U ++ ['\n'])) 3 with hthree | hthree
    · change P ++ 'w' :: ('n' :: '\n' :: D) = _ at hl
      rw [List.append_cons P] at hl
      have hw : size (P ++ ['w']) = size P + 1 := size_append ..
      rw [← eq_of_size_eq hl (by omega), List.append_cancel_left_eq] at hl
      exact .inl (List.head_eq_of_cons_eq hl).symm
    · rw [← eq_of_size_eq hl (by omega), List.append_cancel_left_eq] at hl
      exact .inr (List.head_eq_of_cons_eq hl).symm
  rcases hletter with ⟨c, rest, rfl, hc⟩
  have hsolid : ¬IsBlank ';' c ∧ c.isUpper = false := by
    rcases hc with rfl | rfl
    · exact ⟨fun h => h.elim (by decide) (by decide), rfl⟩
    · exact ⟨fun h => h.elim (by decide) (by decide), rfl⟩
  rcases fields_cons_solid hsolid.1 rest with ⟨f, more, hfields⟩
  rw [statements, hfields, List.map_cons] at hs
  rcases hD.starts _ (hs ▸ List.mem_cons_self ..) with ⟨x, hx, c', rest', rfl, hc'⟩
  cases List.head_eq_of_cons_eq hx
  cases hsolid.2.symm.trans hc'

/-- With one carriage return, only a line feed comes before the down section. -/
theorem exists_lineFeed {l r : List Char} (hl : (downBefore U).flatten ++ D = l ++ r)
    (hsize : size l = offset (downBefore U)) (few : crlfs (U ++ ['\n']) ≤ 1) :
    ∃ q, (downBefore U).flatten = l ++ q ∧ ∀ c ∈ q, c = '\n' := by
  have hoffset := offset_downBefore U
  rcases exists_append_of_size_le hl.symm (by omega) with ⟨q, hq⟩
  refine ⟨q, hq, fun c hc => ?_⟩
  have hlen := length_le_size q
  rw [hq, size_append] at hoffset
  rcases exists_downBefore U with ⟨P, hP⟩
  rcases List.eq_nil_or_concat' q with rfl | ⟨q, d, rfl⟩
  · cases hc
  · rw [List.length_append, List.length_singleton] at hlen
    obtain rfl := List.length_eq_zero_iff.mp (show q.length = 0 by omega)
    rw [hq, List.append_cons P, List.append_cons (P ++ ['w']), ← List.append_assoc] at hP
    obtain rfl := List.mem_singleton.mp hc
    exact List.head_eq_of_cons_eq (List.append_inj' hP rfl).2

/-- A down section that is read back is whole and holds no marker, and the up section has at most one carriage return. -/
theorem down_read (hD : Written texts sqls) (unmarked : ¬Marked (U ++ ['\n'])) (few : crlfs (U ++ ['\n']) ≤ 3)
    (h : sectionOf (fileText U (join texts)) "down" = some s) (hs : statements s = sqls) :
    (∀ sql ∈ sqls, ';' ∉ sql.dropLast ∧ trim sql.dropLast = sql.dropLast) ∧ ¬Marked (join texts) ∧
      crlfs (U ++ ['\n']) ≤ 1 := by
  have hsolid : solid ';' s = solid ';' (join texts) := by
    rw [solid_join hD, ← hs, solid_statements]
  have htext := @fileText_down U (join texts)
  have hcut := @cutOf_down U (join texts) unmarked
  have notMarked : ¬Marked (join texts) := by
    intro marked
    have hnonempty : s ≠ [] := by
      rintro rfl
      rcases (marked_join hD).mp marked with ⟨sql, hsql, -⟩
      rw [← hs, statements, fields_nil] at hsql
      cases hsql
    rcases first_marker marked with ⟨pre, m, post, hlines, hpre, hm⟩
    refine absurd hsolid (Nat.ne_of_lt ?_)
    rw [hlines, cutLines_some marks_down hpre, cutLines_cons] at hcut
    by_cases hdown : trim m = marker "down"
    · -- The section starts again after the marker.
      rw [if_pos hdown] at hcut
      rcases cutLines_found "down" post (downBefore U ++ pre ++ [m]) [] with ⟨cut, hfound, hbefore⟩
      rcases sectionOf_parts (hcut.trans hfound) h with ⟨l, r, hl, hsize, -⟩
      rcases start_join hD with ⟨b, r', hjoin, hb, hstarts | ⟨rfl, rfl⟩⟩
      · have hoffset := offset_downBefore U
        refine solid_lt_of_start hlines hm hjoin hb hstarts (by omega) (htext.symm.trans hl) ?_
        rw [hsize]
        exact offset_le_of_prefix hbefore
      · exact absurd ((marked_join hD).mp marked) (by simp)
    · -- The section ends before the marker.
      rw [if_neg hdown] at hcut
      dsimp only at hcut
      rw [if_pos (show _ ∨ _ from hm)] at hcut
      rcases sectionOf_parts hcut h with ⟨l, r, hl, hsize, -, hstop⟩
      rw [htext, List.append_assoc] at hl
      have one := crlfs_le_one hD few hl hsize hnonempty hs
      rcases exists_lineFeed hl hsize one with ⟨q, hq, hqfeed⟩
      have hend : size s ≤ size (q ++ pre.flatten) := by
        have hbefore := size_before hlines (List.cons_ne_nil _ _)
        have hstop := hstop (List.cons_ne_nil _ _)
        rw [size_append, offset_append, List.nil_append, hsize] at hstop
        dsimp only at hstop
        rw [size_append]
        omega
      rw [hq, ← flatten_rawLines (join texts), hlines, List.flatten_append, List.append_assoc, List.append_cancel_left_eq,
        ← List.append_assoc] at hl
      rcases exists_append_of_size_le hl.symm hend with ⟨y, hy⟩
      exact solid_lt_of_end hlines hm (solid_of_blank fun c hc => .inl (hqfeed c hc ▸ rfl)) hy
  refine ⟨whole_of_statements hs, notMarked, ?_⟩
  rcases sectionOf_parts (cutOf_down_unmarked unmarked notMarked) h with ⟨l, r, hl, hsize, hnil, -⟩
  rw [htext, List.append_assoc] at hl
  by_cases hnonempty : s = []
  · have hoffset := offset_downBefore U
    rw [hnonempty, hnil rfl, List.append_nil, List.append_nil] at hl
    rw [← hl, size_append] at hsize
    change _ = offset (downBefore U) at hsize
    omega
  · exact crlfs_le_one hD few hl hsize hnonempty hs

/-- Without markers, and with at most one carriage return, the up section is read as it was written. -/
theorem up_fields (unmarked : ¬Marked (U ++ ['\n'])) (few : crlfs (U ++ ['\n']) ≤ 1) :
    ∃ s, sectionOf (fileText U D) "up" = some s ∧ fields ';' s = fields ';' U := by
  have hall := offset_up U
  rw [size_append] at hall
  change _ = size U + 1 at hall
  rw [sectionOf_eq, cutOf_up_unmarked unmarked]
  dsimp only
  rw [if_neg (List.cons_ne_nil _ _), offset_append]
  rcases Nat.lt_or_ge (crlfs (U ++ ['\n'])) 1 with hnone | hone
  · refine ⟨U ++ ['\n'], slice_eq_some.mpr ⟨[upLine].flatten, downLine ++ D, fileText_up, size_upLine.symm, ?_⟩, ?_⟩
    · rw [size_append, ← size_upLine, size_append]
      change _ + (size U + 1) = _
      omega
    · exact fields_concat_blank (.inl rfl) U
  · refine ⟨U, slice_eq_some.mpr ⟨[upLine].flatten, ['\n'] ++ (downLine ++ D), ?_, size_upLine.symm, ?_⟩, rfl⟩
    · rw [fileText_up]
      simp only [List.append_assoc]
    · rw [size_append, ← size_upLine]
      omega

theorem down_fields (unmarked : ¬Marked (U ++ ['\n'])) (unmarked' : ¬Marked D) (few : crlfs (U ++ ['\n']) ≤ 1) :
    ∃ s, sectionOf (fileText U D) "down" = some s ∧ fields ';' s = fields ';' D := by
  have hoffset := offset_downBefore U
  rw [sectionOf_eq, cutOf_down_unmarked unmarked unmarked']
  dsimp only
  rw [if_pos rfl]
  rcases Nat.lt_or_ge (crlfs (U ++ ['\n'])) 1 with hnone | hone
  · exact ⟨D, slice_none_eq_some.mpr ⟨(downBefore U).flatten, fileText_down, (by omega : _ = offset (downBefore U))⟩, rfl⟩
  · rcases exists_downBefore U with ⟨P, hP⟩
    have hP' : (downBefore U).flatten = (P ++ ['w', 'n']) ++ ['\n'] := by rw [hP, List.append_assoc]; rfl
    rw [hP', size_append] at hoffset
    change _ = _ + 1 at hoffset
    refine ⟨'\n' :: D, slice_none_eq_some.mpr ⟨P ++ ['w', 'n'], ?_, (by omega : _ = offset (downBefore U))⟩, ?_⟩
    · rw [fileText_down, hP', List.append_assoc]
      rfl
    · exact fields_cons_blank (.inl rfl) D

end Reading

/-! ### Plans -/

section Plans
variable {d : Dialect} {op : Operation} {creates adds ops : List Operation} {texts : List (String × String)}
  {terminator sql up down : String} {ups downs : List String}

theorem starts_append {a : String} (h : Starts a.toList) (b : String) : Starts (a ++ b).toList := by
  rcases h with ⟨c, rest, ha, hc⟩
  exact ⟨c, rest ++ b.toList, by rw [String.toList_append, ha]; rfl, hc⟩

/-- The SQL of an operation starts with a keyword and ends with a semicolon. -/
theorem toSql_shape (h : op.toSql d = .ok sql) : ∃ x, sql.toList = x ++ [';'] ∧ Starts x := by
  have shape : ∀ {a e : String} {x : List Char}, e.toList = x ++ [';'] → Starts a.toList →
      ∃ x, (a ++ e).toList = x ++ [';'] ∧ Starts x := by
    intro a e x he ha
    rcases ha with ⟨c, rest, ha, hc⟩
    exact ⟨a.toList ++ x, by rw [String.toList_append, he, List.append_assoc], c, rest ++ x, by rw [ha]; rfl, hc⟩
  cases op with
  | createTable tableName columns checkConstraints =>
    cases h
    refine shape (x := "\n)".toList) rfl ?_
    iterate 5 refine starts_append ?_ _
    exact ⟨'C', _, rfl, rfl⟩
  | addColumn tableName column =>
    cases h
    refine shape (x := []) rfl ?_
    iterate 3 refine starts_append ?_ _
    exact ⟨'A', _, rfl, rfl⟩
  | dropColumn tableName columnName =>
    cases h
    refine shape (x := "\"".toList) rfl ?_
    iterate 3 refine starts_append ?_ _
    exact ⟨'A', _, rfl, rfl⟩
  | alterColumnType tableName columnName newSqlType =>
    cases d with
    | sqlite => cases h
    | postgres =>
      cases h
      refine shape (x := []) rfl ?_
      iterate 9 refine starts_append ?_ _
      exact ⟨'A', _, rfl, rfl⟩
  | renameColumn tableName oldName newName =>
    cases h
    refine shape (x := "\"".toList) rfl ?_
    iterate 5 refine starts_append ?_ _
    exact ⟨'A', _, rfl, rfl⟩
  | dropTable tableName =>
    cases h
    refine shape (x := "\"".toList) rfl ?_
    refine starts_append ?_ _
    exact ⟨'D', _, rfl, rfl⟩
  | createIndex indexName tableName columns =>
    cases h
    refine shape (x := ")".toList) rfl ?_
    iterate 5 refine starts_append ?_ _
    exact ⟨'C', _, rfl, rfl⟩
  | dropIndex indexName =>
    cases h
    refine shape (x := "\"".toList) rfl ?_
    refine starts_append ?_ _
    exact ⟨'D', _, rfl, rfl⟩

/-- The texts of an operation. -/
theorem statementTexts_ok (h : statementTexts d terminator op = .ok (up, down)) :
    ∃ sql, op.toSql d = .ok sql ∧ up = sql ++ terminator ∧
      (op.reverse = none ∧ down = "" ∨ ∃ back sql', op.reverse = some back ∧ back.toSql d = .ok sql' ∧
        down = sql' ++ terminator) := by
  rcases Except.bind_eq_ok.mp h with ⟨sql, hsql, h⟩
  refine ⟨sql, hsql, ?_⟩
  rw [Operation.toDownSql] at h
  cases hback : op.reverse with
  | none =>
    rw [hback] at h
    cases h
    exact ⟨rfl, .inl ⟨rfl, rfl⟩⟩
  | some back =>
    rw [hback] at h
    cases hsql' : back.toSql d with
    | error e =>
      rw [Option.map_some, hsql'] at h
      cases h
    | ok sql' =>
      rw [Option.map_some, hsql'] at h
      cases h
      exact ⟨rfl, .inr ⟨back, sql', rfl, hsql', rfl⟩⟩

/-- What is written for a list of operations. -/
theorem written_texts (hterminator : terminator.toList = [] ∨ terminator.toList = [';'])
    (h : ops.mapM (statementTexts d terminator) = .ok texts) :
    ∃ ups downs, upStatements d ops = .ok ups ∧ downStatements d ops = .ok downs ∧
      Written (texts.map (·.1.toList)) (ups.map String.toList) ∧
      Written (texts.map (·.2.toList)) (downs.map String.toList) ∧ ∀ text ∈ texts, text.1.toList ≠ [] := by
  rw [Except.mapM_eq_ok] at h
  induction h with
  | nil => exact ⟨[], [], rfl, rfl, .nil, .nil, nofun⟩
  | @cons op text ops texts hop _ ih =>
    rcases ih with ⟨ups, downs, hups, hdowns, hwup, hwdown, hfilled⟩
    rcases statementTexts_ok hop with ⟨sql, hsql, hup, hdown⟩
    rcases toSql_shape hsql with ⟨x, hx, hstarts⟩
    have hups' : upStatements d (op :: ops) = .ok (sql :: ups) := by
      rw [upStatements] at hups ⊢
      rw [List.mapM_cons, hsql, hups]
      rfl
    have hwup' : Written ((text :: texts).map (·.1.toList)) ((sql :: ups).map String.toList) := by
      rw [List.map_cons, List.map_cons, hup, String.toList_append, hx]
      exact .statement hstarts hterminator hwup
    have hfilled' : ∀ text' ∈ text :: texts, text'.1.toList ≠ [] := by
      refine List.forall_mem_cons.mpr ⟨?_, hfilled⟩
      rw [hup, String.toList_append, hx]
      simp
    rcases hdown with ⟨hnone, hdown⟩ | ⟨back, sql', hback, hsql', hdown⟩
    · refine ⟨sql :: ups, downs, hups', ?_, hwup', ?_, hfilled'⟩
      · rw [downStatements, List.filterMap_cons_none hnone]
        exact hdowns
      · rw [List.map_cons, hdown]
        exact .blank hwdown
    · rcases toSql_shape hsql' with ⟨x', hx', hstarts'⟩
      refine ⟨sql :: ups, sql' :: downs, hups', ?_, hwup', ?_, hfilled'⟩
      · rw [downStatements] at hdowns ⊢
        rw [List.filterMap_cons_some hback, List.mapM_cons, hsql', hdowns]
        rfl
      · rw [List.map_cons, List.map_cons, hdown, String.toList_append, hx']
        exact .statement hstarts' hterminator hwdown

/-- What is written for a plan. -/
theorem written_file (h : fileTexts d creates adds = .ok texts) (hups : upStatements d (creates ++ adds) = .ok ups)
    (hdowns : downStatements d (creates ++ adds) = .ok downs) :
    Written (texts.map (·.1.toList)) (ups.map String.toList) ∧
      Written (texts.map (·.2.toList)) (downs.map String.toList) ∧ ∀ text ∈ texts, text.1.toList ≠ [] := by
  rcases Except.bind_eq_ok.mp h with ⟨createTexts, hcreates, h⟩
  rcases Except.bind_eq_ok.mp h with ⟨addTexts, hadds, h⟩
  cases h
  rcases written_texts (.inr rfl) hcreates with ⟨ups₁, downs₁, hups₁, hdowns₁, hwup₁, hwdown₁, hfilled₁⟩
  rcases written_texts (.inl rfl) hadds with ⟨ups₂, downs₂, hups₂, hdowns₂, hwup₂, hwdown₂, hfilled₂⟩
  have hupsEq : upStatements d (creates ++ adds) = .ok (ups₁ ++ ups₂) := by
    rw [upStatements, List.mapM_append]
    rw [upStatements] at hups₁ hups₂
    rw [hups₁, hups₂]
    rfl
  have hdownsEq : downStatements d (creates ++ adds) = .ok (downs₁ ++ downs₂) := by
    rw [downStatements, List.filterMap_append, List.mapM_append]
    rw [downStatements] at hdowns₁ hdowns₂
    rw [hdowns₁, hdowns₂]
    rfl
  cases hupsEq.symm.trans hups
  cases hdownsEq.symm.trans hdowns
  simp only [List.map_append]
  exact ⟨hwup₁.append hwup₂, hwdown₁.append hwdown₂, fun text htext =>
    (List.mem_append.mp htext).elim (hfilled₁ text) (hfilled₂ text)⟩

theorem migrationBody_toList (texts : List (String × String)) : (migrationBody texts).toList =
    fileText (join (texts.map (·.1.toList))) (join (texts.map (·.2.toList))) := by
  rw [migrationBody, String.toList_append, String.toList_append, String.toList_append, String.toList_intercalate,
    String.toList_intercalate, List.map_map, List.map_map, fileText]
  simp only [List.append_assoc]
  rfl

/-- The runner reads the statements of a plan back from the file that is written for it exactly when nothing in them
    looks like a separator. -/
theorem reads_back_iff (written : fileTexts d creates adds = .ok texts)
    (hups : upStatements d (creates ++ adds) = .ok ups) (hdowns : downStatements d (creates ++ adds) = .ok downs) :
    ReadsBack (migrationBody texts) ups downs ↔ Separable (ups.map String.toList) (downs.map String.toList) := by
  rcases written_file written hups hdowns with ⟨hwup, hwdown, hfilled⟩
  have hfilled' : ∀ t ∈ texts.map (·.1.toList), t ≠ [] := by
    intro t ht
    rcases List.mem_map.mp ht with ⟨text, htext, rfl⟩
    exact hfilled text htext
  have hcrlfs := crlfs_join hwup
  have hmarked := marked_join hwup
  have hmarked' := marked_join hwdown
  rw [← marked_concat] at hmarked
  rw [ReadsBack, migrationBody_toList]
  constructor
  · rintro ⟨hup, hdown⟩
    rcases Option.map_eq_some_iff.mp hup with ⟨s, hsection, hs⟩
    rcases Option.map_eq_some_iff.mp hdown with ⟨s', hsection', hs'⟩
    rcases up_read hwup hfilled' hsection hs with ⟨whole, unmarked, few⟩
    rcases down_read hwdown unmarked few hsection' hs' with ⟨whole', unmarked', one⟩
    refine ⟨?_, ?_, hcrlfs ▸ one⟩
    · exact List.forall_mem_append.mpr ⟨whole, whole'⟩
    · rw [List.forall_mem_append]
      exact ⟨fun sql hsql hm => unmarked (hmarked.mpr ⟨sql, hsql, hm⟩),
        fun sql hsql hm => unmarked' (hmarked'.mpr ⟨sql, hsql, hm⟩)⟩
  · rintro ⟨whole, unmarked, returns⟩
    rw [List.forall_mem_append] at whole unmarked
    rw [← hcrlfs] at returns
    have hup : ¬Marked (join (texts.map (·.1.toList)) ++ ['\n']) := by
      intro hm
      rcases hmarked.mp hm with ⟨sql, hsql, hm⟩
      exact unmarked.1 sql hsql hm
    have hdown : ¬Marked (join (texts.map (·.2.toList))) := by
      intro hm
      rcases hmarked'.mp hm with ⟨sql, hsql, hm⟩
      exact unmarked.2 sql hsql hm
    rcases up_fields hup returns with ⟨s, hsection, hs⟩
    rcases down_fields hup hdown returns with ⟨s', hsection', hs'⟩
    exact ⟨Option.map_eq_some_iff.mpr ⟨s, hsection, statements_of_whole hwup whole.1 hs⟩,
      Option.map_eq_some_iff.mpr ⟨s', hsection', statements_of_whole hwdown whole.2 hs'⟩⟩

/-- `makemigrations` writes the texts of its plan. -/
theorem makemigrations_body [CaseMap] {previous current : List ModelSnapshot} {file : MigrationFile}
    (h : makemigrations false previous current d = .ok (some file)) :
    ∃ creates adds texts, fileTexts d creates adds = .ok texts ∧ file.up = creates ++ adds ∧
      file.body = migrationBody texts := by
  unfold makemigrations at h
  split at h
  · cases h
  · rename_i ops texts hplan
    unfold planStep at hplan
    rcases Except.bind_eq_ok.mp hplan with ⟨creates, hcreates, hplan⟩
    rcases Except.bind_eq_ok.mp hplan with ⟨createTexts, hcreateTexts, hplan⟩
    rcases Except.bind_eq_ok.mp hplan with ⟨adds, hadds, hplan⟩
    rcases Except.bind_eq_ok.mp hplan with ⟨addTexts, haddTexts, hplan⟩
    cases hplan
    split at h
    · cases h
    · cases h
      refine ⟨creates, adds, createTexts ++ addTexts, ?_, rfl, rfl⟩
      rw [fileTexts, hcreateTexts, haddTexts]
      rfl

end Plans

/-! ### A tag and an archive -/

/-- A new table and a new column. -/
def tagPlan : List Operation × List Operation :=
  ([.createTable "blog_tag" [⟨"id", false, "BIGSERIAL", true, false, none, none⟩] [],
    .createIndex "idx_tag_id" "blog_tag" ["id"]],
   [.addColumn "blog_post" ⟨"title", true, "TEXT", false, false, none, none⟩])

theorem tagPlan_reads_back : ∃ texts ups downs, fileTexts .postgres tagPlan.1 tagPlan.2 = .ok texts ∧
    upStatements .postgres (tagPlan.1 ++ tagPlan.2) = .ok ups ∧
    downStatements .postgres (tagPlan.1 ++ tagPlan.2) = .ok downs ∧ ReadsBack (migrationBody texts) ups downs := by
  have written : fileTexts .postgres tagPlan.1 tagPlan.2 = .ok _ := rfl
  have hups : upStatements .postgres (tagPlan.1 ++ tagPlan.2) = .ok _ := rfl
  have hdowns : downStatements .postgres (tagPlan.1 ++ tagPlan.2) = .ok _ := rfl
  refine ⟨_, _, _, written, hups, hdowns, (reads_back_iff written hups hdowns).mpr ⟨?_, ?_, ?_⟩⟩
  · decide +kernel
  · decide +kernel
  · decide +kernel

/-- A model whose table has a semicolon in its name. -/
def archiveSnapshot : ModelSnapshot := { structName := "Archive", appLabel := "shop", tableName := "orders;archive",
                                         fields := [{ name := "note", columnName := "note", kind := .text }] }

theorem archive_cut : ∃ file ups downs, @makemigrations CaseMap.ascii false [] [archiveSnapshot] .postgres = .ok (some file) ∧
    upStatements .postgres file.up = .ok ups ∧ downStatements .postgres file.up = .ok downs ∧
    ¬ReadsBack file.body ups downs := by
  refine ⟨_, _, _, rfl, rfl, rfl, fun h => absurd h.1 ?_⟩
  decide +kernel

end Djangors.Migrations
