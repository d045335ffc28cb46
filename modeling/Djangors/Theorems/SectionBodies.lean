import Djangors.Migrations.Make
import Djangors.Theorems.Sections

/-! # Bodies of sections

`section` adds one byte for each line break. So it cuts the bodies of a file exactly when no `\r\n` stands before their
ends and the last marker has its line feed, up to bodies of nothing but line feeds. The command line joins the lines of
the up section again, without the last line feed. -/

namespace Djangors.Migrations
open Text

/-! ### Offsets -/

/-- As many bytes before the end of some lines as they have carriage returns at line ends, one fewer when the last line
    has no line feed, a character ends. -/
def Lands (ls : List (List Char)) : Prop := ∃ l t, ls.flatten = l ++ t ∧ size t + unended ls = ls.countP endsCrlf

section Offsets
variable {text : List Char} {ls rest : List (List Char)}

theorem text_eq (h : rawLines text = ls ++ rest) : text = ls.flatten ++ rest.flatten := by
  rw [← List.flatten_append, ← h, flatten_rawLines]

theorem rest_of_unended (h : rawLines text = ls ++ rest) (hunended : unended ls ≠ 0) : rest = [] := by
  by_contra hrest
  exact hunended (unended_of_ends fun _ hline => exists_of_mem_rawLines h hrest hline)

/-- The offset of some lines is the end of a character exactly when they land. -/
theorem lands_iff (h : rawLines text = ls ++ rest) : (∃ l r, text = l ++ r ∧ size l = offset ls) ↔ Lands ls := by
  have hoffset := offset_add_crlfs_eq h
  have htext := text_eq h
  constructor
  · rintro ⟨l, r, hl, hsize⟩
    have hle : size l ≤ size ls.flatten := by
      by_cases hunended : unended ls = 0
      · omega
      · rw [rest_of_unended h hunended, List.flatten_nil, List.append_nil] at htext
        rw [← htext, hl, size_append]
        exact Nat.le_add_right ..
    obtain ⟨t, ht⟩ := exists_append_of_size_le (hl.symm.trans htext) hle
    refine ⟨l, t, ht, ?_⟩
    rw [ht, size_append] at hoffset
    omega
  · rintro ⟨l, t, ht, hsize⟩
    refine ⟨l, t ++ rest.flatten, by rw [htext, ht, List.append_assoc], ?_⟩
    rw [ht, size_append] at hoffset
    omega

end Offsets

theorem append_inj_of_size {l l' r r' : List Char} (h : l ++ r = l' ++ r') (hsize : size l = size l') :
    l = l' ∧ r = r' := by
  obtain ⟨t, rfl⟩ := exists_append_of_size_le h hsize.le
  have ht : t = [] := by
    have := length_le_size t
    rw [size_append] at hsize
    exact List.length_eq_zero_iff.mp (by omega)
  subst ht
  exact ⟨(List.append_nil l).symm, by simpa using h⟩

theorem size_crlf {m line : List Char} (h : m ++ ['\r', '\n'] = line) : size (m ++ ['\r']) + 1 = size line := by
  rw [← h, size_append, size_append]
  rfl

/-- A text that starts itself one character later has one character only. -/
theorem all_of_shift {c : Char} {u r s : List Char} (h : u ++ r = c :: (u ++ s)) : ∀ x ∈ u, x = c := by
  induction u with
  | nil => simp
  | cons d u ih =>
    obtain ⟨rfl, hrest⟩ := List.cons.inj h
    exact List.forall_mem_cons.mpr ⟨rfl, ih hrest⟩

/-! ### Panics -/

section Total
variable {wanted : String} {text : List Char} {cut : Cut}

/-- Where a section lies in its file. -/
theorem sectionOf_eq_some {s : List Char} (hcut : cutOf text wanted = some cut) :
    sectionOf text wanted = some s ↔ ∃ l r, text = l ++ s ++ r ∧ size l = offset cut.before ∧
      (cut.after = [] → r = []) ∧ (cut.after ≠ [] → size (l ++ s) = offset (cut.before ++ cut.body)) := by
  refine ⟨sectionOf_parts hcut, ?_⟩
  rintro ⟨l, r, hl, hsize, hnil, hstop⟩
  rw [sectionOf_eq, hcut]
  dsimp only
  by_cases hafter : cut.after = []
  · rw [if_pos hafter, slice_none_eq_some]
    exact ⟨l, by rw [hl, hnil hafter, List.append_nil], hsize⟩
  · rw [if_neg hafter, slice_eq_some]
    exact ⟨l, r, hl, hsize, hstop hafter⟩

/-- `section` panics exactly when one of its offsets is not the end of a character. -/
theorem sectionOf_total_iff (hcut : cutOf text wanted = some cut) :
    sectionOf text wanted ≠ none ↔ Lands cut.before ∧ (cut.after ≠ [] → Lands (cut.before ++ cut.body)) := by
  have hlines := (cutOf_append hcut).symm
  have hstart := lands_iff (hlines.trans (List.append_assoc ..))
  have hstop := lands_iff hlines
  rw [Option.ne_none_iff_exists', ← hstart, ← hstop]
  simp only [sectionOf_eq_some hcut]
  constructor
  · rintro ⟨s, l, r, hl, hsize, -, hboth⟩
    exact ⟨⟨l, s ++ r, by rw [hl, List.append_assoc], hsize⟩, fun hafter => ⟨l ++ s, r, hl, hboth hafter⟩⟩
  · rintro ⟨⟨l, r, hl, hsize⟩, hends⟩
    by_cases hafter : cut.after = []
    · exact ⟨r, l, [], by rw [hl, List.append_nil], hsize, fun _ => rfl, absurd hafter⟩
    · obtain ⟨l', r', hl', hsize'⟩ := hends hafter
      have hle : size l ≤ size l' := by
        rw [hsize, hsize', offset_append]
        exact Nat.le_add_right ..
      obtain ⟨s, rfl⟩ := exists_append_of_size_le (hl.symm.trans hl') hle
      exact ⟨s, l, r', hl', hsize, (absurd · hafter), fun _ => hsize'⟩

end Total

/-! ### Lines without markers -/

section Unmarked
variable {wanted : String} {before rest : List (List Char)} {text : List Char}

theorem cutLines_skip (hwanted : wanted = "up" ∨ wanted = "down") (h : ¬Marked text) :
    cutLines wanted (rawLines text ++ rest) before none = cutLines wanted rest (before ++ rawLines text) none := by
  replace h : ∀ line ∈ rawLines text, ¬IsMarker line := fun line hline hmarker => h ⟨line, hline, hmarker⟩
  generalize rawLines text = ls at h ⊢
  induction ls generalizing before with
  | nil => simp
  | cons line ls ih =>
    obtain ⟨hline, hls⟩ := List.forall_mem_cons.mp h
    rw [List.cons_append, cutLines_cons, if_neg]
    · dsimp only
      rw [ih hls, List.append_assoc, List.singleton_append]
    · rcases hwanted with rfl | rfl
      · exact fun heq => hline (.inr heq)
      · exact fun heq => hline (.inl heq)

theorem cutLines_take {body : List (List Char)} (hwanted : wanted = "up" ∨ wanted = "down") (h : ¬Marked text) :
    cutLines wanted (rawLines text ++ rest) before (some body) = cutLines wanted rest before (some (body ++ rawLines text)) := by
  replace h : ∀ line ∈ rawLines text, ¬IsMarker line := fun line hline hmarker => h ⟨line, hline, hmarker⟩
  generalize rawLines text = ls at h ⊢
  induction ls generalizing body with
  | nil => simp
  | cons line ls ih =>
    obtain ⟨hline, hls⟩ := List.forall_mem_cons.mp h
    rw [List.cons_append, cutLines_cons, if_neg]
    · have hneither : ¬(trim line = marker "down" ∨ trim line = marker "up") := hline
      dsimp only
      rw [if_neg hneither, ih hls, List.append_assoc, List.singleton_append]
    · rcases hwanted with rfl | rfl
      · exact fun heq => hline (.inr heq)
      · exact fun heq => hline (.inl heq)

end Unmarked

/-! ### Files of two sections -/

/-- A file of an up marker, an up body, a down marker and a down body. -/
structure TwoSections where
  upMarker : List Char
  up : List Char
  downMarker : List Char
  down : List Char
  upMarked : trim upMarker = marker "up"
  upEnded : ∃ l, '\n' ∉ l ∧ upMarker = l ++ ['\n']
  upWhole : up = [] ∨ ∃ l, up = l ++ ['\n']
  upPlain : ¬Marked up
  downMarked : trim downMarker = marker "down"
  downEnded : ∃ l, '\n' ∉ l ∧ (downMarker = l ++ ['\n'] ∨ downMarker = l ∧ down = [])
  downPlain : ¬Marked down

namespace TwoSections
variable (f : TwoSections)

def text : List Char := f.upMarker ++ f.up ++ f.downMarker ++ f.down

/-- The last marker has its line feed and nothing up to there ends with `\r\n`; or the file ends with the marker, its only
    `\r\n` ends the first line, and the up body is made of line feeds. -/
def Exact : Prop :=
  if ['\n'] <:+ f.downMarker then
    endsCrlf f.upMarker = false ∧ crlfs f.up = 0 ∧ endsCrlf f.downMarker = false
  else endsCrlf f.upMarker = true ∧ ∀ c ∈ f.up, c = '\n'

theorem rawLines_upMarker : rawLines f.upMarker = [f.upMarker] := by
  obtain ⟨l, hl, heq⟩ := f.upEnded
  rw [heq, rawLines_append [] hl, rawLines]

theorem rawLines_downMarker : rawLines f.downMarker = [f.downMarker] := by
  obtain ⟨l, hl, heq⟩ := f.downEnded
  rcases heq with heq | ⟨heq, -⟩
  · rw [heq, rawLines_append [] hl, rawLines]
  · have hmarked := f.downMarked
    rw [heq] at hmarked ⊢
    rw [rawLines_of_notMem hl, if_neg]
    rintro rfl
    cases hmarked

/-- The lines of a file, marker by marker. -/
theorem rawLines_text : rawLines f.text = [f.upMarker] ++ rawLines f.up ++ ([f.downMarker] ++ rawLines f.down) := by
  obtain ⟨l, hl, hdown⟩ := f.downEnded
  obtain ⟨m, -, hup⟩ := f.upEnded
  have hrest : rawLines (f.downMarker ++ f.down) = [f.downMarker] ++ rawLines f.down := by
    rcases hdown with heq | ⟨-, hnil⟩
    · rw [rawLines_append_of_ends (.inr ⟨l, heq⟩), f.rawLines_downMarker]
    · rw [hnil, List.append_nil, f.rawLines_downMarker]
      rfl
  rw [text, List.append_assoc, List.append_assoc, rawLines_append_of_ends (.inr ⟨m, hup⟩),
    rawLines_append_of_ends f.upWhole, hrest, f.rawLines_upMarker, List.append_assoc]

theorem cut_up : cutOf f.text "up" = some ⟨[f.upMarker], rawLines f.up, f.downMarker :: rawLines f.down⟩ := by
  have hdown : marker "down" ≠ marker "up" := by decide
  rw [cutOf, f.rawLines_text, List.append_assoc, List.singleton_append, cutLines_cons, if_pos f.upMarked,
    cutLines_take (.inl rfl) f.upPlain, List.singleton_append, cutLines_cons, f.downMarked, if_neg hdown]
  dsimp only
  rw [if_pos (.inl rfl)]
  rfl

theorem cut_down : cutOf f.text "down" = some ⟨f.upMarker :: (rawLines f.up ++ [f.downMarker]), rawLines f.down, []⟩ := by
  have hup : marker "up" ≠ marker "down" := by decide
  have hrest := @cutLines_take "down" (f.upMarker :: (rawLines f.up ++ [f.downMarker])) [] f.down [] (.inr rfl) f.downPlain
  rw [List.append_nil] at hrest
  rw [cutOf, f.rawLines_text, List.append_assoc, List.singleton_append, cutLines_cons, f.upMarked, if_neg hup]
  dsimp only
  rw [cutLines_skip (.inr rfl) f.upPlain, List.singleton_append, cutLines_cons, if_pos f.downMarked]
  simpa [cutLines] using hrest

theorem text_split : f.text = f.upMarker ++ (f.up ++ (f.downMarker ++ f.down)) := by
  simp [text]

theorem up_sizes : offset [f.upMarker] + (endsCrlf f.upMarker).toNat = size f.upMarker ∧
    offset ([f.upMarker] ++ rawLines f.up) + (endsCrlf f.upMarker).toNat + crlfs f.up = size f.upMarker + size f.up := by
  have hlines := f.rawLines_text
  have hone := offset_add_crlfs_eq (hlines.trans (List.append_assoc ..))
  have hboth := offset_add_crlfs_eq hlines
  have hended {ls rest : List (List Char)} (h : rawLines f.text = ls ++ rest) (hrest : rest ≠ []) : unended ls = 0 :=
    by_contra fun hne => hrest (rest_of_unended h hne)
  rw [hended (hlines.trans (List.append_assoc ..)) (by simp), List.countP_singleton, List.flatten_singleton] at hone
  rw [hended hlines (by simp), List.countP_append, List.countP_singleton, List.flatten_append, List.flatten_singleton,
    flatten_rawLines, size_append] at hboth
  rw [crlfs]
  cases hcrlf : endsCrlf f.upMarker
  · rw [hcrlf] at hone hboth
    simp only [Bool.false_eq_true, if_false, Bool.toNat_false] at hone hboth ⊢
    omega
  · rw [hcrlf] at hone hboth
    simp only [if_true, Bool.toNat_true] at hone hboth ⊢
    omega

/-- The up body is cut exactly when neither it nor its marker has a `\r\n`, or only its marker and it is all line feeds. -/
theorem section_up_iff : sectionOf f.text "up" = some f.up ↔
    crlfs f.up = 0 ∧ (endsCrlf f.upMarker = true → ∀ c ∈ f.up, c = '\n') := by
  obtain ⟨hone, hboth⟩ := f.up_sizes
  rw [sectionOf_eq_some f.cut_up]
  constructor
  · rintro ⟨l, r, hl, hsize, -, hstop⟩
    have hstop := hstop (List.cons_ne_nil _ _)
    rw [size_append] at hstop
    dsimp only at hsize hstop
    refine ⟨by omega, fun hcrlf => ?_⟩
    rw [hcrlf, Bool.toNat_true] at hone
    obtain ⟨m, hm⟩ := of_decide_eq_true hcrlf
    have hsplit : l ++ (f.up ++ r) = (m ++ ['\r']) ++ ('\n' :: (f.up ++ (f.downMarker ++ f.down))) := by
      rw [← List.append_assoc, ← hl, f.text_split, ← hm]
      simp
    have hsame : size l = size (m ++ ['\r']) := by
      have := size_crlf hm
      omega
    exact all_of_shift (append_inj_of_size hsplit hsame).2
  · rintro ⟨hup, hfeeds⟩
    cases hcrlf : endsCrlf f.upMarker with
    | false =>
      rw [hcrlf, Bool.toNat_false] at hone hboth
      refine ⟨f.upMarker, f.downMarker ++ f.down, by rw [f.text_split, List.append_assoc], hone.symm, nofun, fun _ => ?_⟩
      rw [size_append]
      dsimp only
      omega
    | true =>
      rw [hcrlf, Bool.toNat_true] at hone hboth
      obtain ⟨m, hm⟩ := of_decide_eq_true hcrlf
      have hshift : '\n' :: f.up = f.up ++ ['\n'] := by
        rw [List.eq_replicate_of_mem (hfeeds hcrlf), ← List.replicate_succ, List.replicate_succ']
      have hsize := size_crlf hm
      refine ⟨m ++ ['\r'], '\n' :: (f.downMarker ++ f.down), ?_, by dsimp only; omega, nofun, fun _ => ?_⟩
      · rw [f.text_split, ← hm]
        have hshift' := congrArg (· ++ (f.downMarker ++ f.down)) hshift
        simp only [List.cons_append, List.append_assoc] at hshift' ⊢
        simpa using hshift'
      · rw [size_append]
        dsimp only
        omega

theorem unended_downMarker : unended (f.upMarker :: (rawLines f.up ++ [f.downMarker])) =
    if ['\n'] <:+ f.downMarker then 0 else 1 := by
  rw [← List.cons_append, unended_concat]

/-- The down body is cut exactly when one `\r\n` stands before it for a missing line feed of its marker, and else none. -/
theorem section_down_iff : sectionOf f.text "down" = some f.down ↔
    (endsCrlf f.upMarker).toNat + crlfs f.up + (endsCrlf f.downMarker).toNat = if ['\n'] <:+ f.downMarker then 0 else 1 := by
  have hlines := (cutOf_append f.cut_down).symm
  dsimp only at hlines
  rw [List.append_nil] at hlines
  have hoffset := offset_add_crlfs_eq hlines
  have hcount : (f.upMarker :: (rawLines f.up ++ [f.downMarker])).countP endsCrlf =
      (endsCrlf f.upMarker).toNat + crlfs f.up + (endsCrlf f.downMarker).toNat := by
    rw [← List.singleton_append, List.countP_append, List.countP_append, List.countP_singleton, List.countP_singleton, crlfs,
      Nat.add_assoc]
    cases endsCrlf f.upMarker <;> cases endsCrlf f.downMarker <;> rfl
  have hflatten : (f.upMarker :: (rawLines f.up ++ [f.downMarker])).flatten = f.upMarker ++ f.up ++ f.downMarker := by
    simp [flatten_rawLines]
  rw [hcount, hflatten, f.unended_downMarker] at hoffset
  rw [sectionOf_eq_some f.cut_down]
  constructor
  · rintro ⟨l, r, hl, hsize, hnil, -⟩
    rw [hnil rfl, List.append_nil, text] at hl
    dsimp only at hsize
    rw [← List.append_cancel_right hl] at hsize
    omega
  · intro hcrlfs
    refine ⟨f.upMarker ++ f.up ++ f.downMarker, [], by rw [List.append_nil, text], ?_, fun _ => rfl, absurd rfl⟩
    dsimp only
    omega

/-- Both bodies are cut exactly when the file is exact. -/
theorem exact_iff : sectionOf f.text "up" = some f.up ∧ sectionOf f.text "down" = some f.down ↔ f.Exact := by
  rw [section_up_iff, section_down_iff, Exact]
  by_cases hend : ['\n'] <:+ f.downMarker
  · rw [if_pos hend, if_pos hend]
    constructor
    · rintro ⟨⟨hup, -⟩, hcount⟩
      refine ⟨?_, hup, ?_⟩
      · cases hcrlf : endsCrlf f.upMarker with
        | false => rfl
        | true => rw [hcrlf, Bool.toNat_true] at hcount; omega
      · cases hcrlf : endsCrlf f.downMarker with
        | false => rfl
        | true => rw [hcrlf, Bool.toNat_true] at hcount; omega
    · rintro ⟨hfirst, hup, hlast⟩
      rw [hfirst, hup, hlast]
      exact ⟨⟨rfl, nofun⟩, rfl⟩
  · rw [if_neg hend, if_neg hend, (stripEnd_of_unended hend).2]
    constructor
    · rintro ⟨⟨hup, hfeeds⟩, hcount⟩
      cases hcrlf : endsCrlf f.upMarker with
      | false => rw [hcrlf, hup, Bool.toNat_false] at hcount; cases hcount
      | true => exact ⟨rfl, hfeeds hcrlf⟩
    · rintro ⟨hfirst, hfeeds⟩
      have hup : crlfs f.up = 0 := by
        refine List.countP_eq_zero.mpr fun line hline hcrlf => ?_
        have hreturn : '\r' ∈ line := (of_decide_eq_true hcrlf).mem (by simp)
        have hmem : '\r' ∈ f.up := by
          rw [← flatten_rawLines f.up]
          exact List.mem_flatten.mpr ⟨line, hline, hreturn⟩
        exact absurd (hfeeds _ hmem) (by decide)
      rw [hfirst, hup]
      exact ⟨⟨rfl, fun _ => hfeeds⟩, rfl⟩

end TwoSections

/-! ### The command line -/

section Agree
variable {text : List Char} {cut : Cut}

theorem size_join (ls : List (List Char)) :
    size (['\n'].intercalate (ls.map stripEnd)) + (if ls = [] then 0 else 1) = offset ls := by
  induction ls with
  | nil => rfl
  | cons line ls ih =>
    cases ls with
    | nil => simp [offset]
    | cons next ls =>
      rw [List.map_cons, List.map_cons, List.intercalate_cons_cons, ← List.map_cons, size_append, size_append, offset_cons]
      rw [if_neg (List.cons_ne_nil _ _)] at ih ⊢
      have hfeed : size ['\n'] = 1 := rfl
      omega

/-- Lines that only line feeds divide are their own join. -/
theorem join_eq_flatten {ls : List (List Char)} (hended : ∀ line ∈ ls.dropLast, ∃ l, line = l ++ ['\n'])
    (hcrlfs : ls.countP endsCrlf = 0) (hunended : unended ls ≠ 0) :
    ['\n'].intercalate (ls.map stripEnd) = ls.flatten := by
  induction ls with
  | nil => rfl
  | cons line ls ih =>
    rw [List.countP_cons] at hcrlfs
    cases ls with
    | nil =>
      have hline : ¬['\n'] <:+ line := fun hend => hunended ((unended_concat [] line).trans (if_pos hend))
      simp [(stripEnd_of_unended hline).1]
    | cons next ls =>
      obtain ⟨l, rfl⟩ := hended line (by simp)
      have hplain : endsCrlf (l ++ ['\n']) = false := by
        cases hcrlf : endsCrlf (l ++ ['\n']) with
        | false => rfl
        | true => rw [hcrlf] at hcrlfs; simp at hcrlfs
      have hstrip : stripEnd (l ++ ['\n']) = l := stripEnd_feed hplain
      have hrest := ih (fun line hline => hended line (by simp [hline])) (by omega) hunended
      rw [List.map_cons, List.map_cons, List.intercalate_cons_cons, ← List.map_cons, hstrip, List.flatten_cons, hrest,
        List.append_assoc]

theorem offset_eq_zero {ls : List (List Char)} (h : offset ls = 0) : ls = [] := by
  cases ls with
  | nil => rfl
  | cons line ls =>
    rw [offset_cons] at h
    omega

/-- The lines that `section_up` joins stand at the place that `section` cuts from. -/
def Coincides (text : List Char) (cut : Cut) (joined : List Char) : Prop :=
  ∃ l r, text = l ++ joined ++ r ∧ size l + cut.before.countP endsCrlf = size cut.before.flatten + unended cut.before ∧
    (cut.after = [] → r = []) ∧ (cut.after ≠ [] → size (l ++ joined) + (cut.before ++ cut.body).countP endsCrlf =
      size (cut.before ++ cut.body).flatten)

/-- The section has no line, and `section` finds its place; or it ends the file without a line feed, and the file has
    no `\r\n`. Where lines stand between two up markers, these agree by coincidence only. -/
def Agrees (text : List Char) (cut : Cut) (kept : List (List Char)) : Prop :=
  if kept = [] ∨ kept = cut.body.map stripEnd then
    (cut.body = [] ∧ if cut.after = [] then cut.before.countP endsCrlf = unended cut.before else Lands cut.before) ∨
      (cut.body ≠ [] ∧ kept ≠ [] ∧ cut.after = [] ∧ (cut.before ++ cut.body).countP endsCrlf = 0 ∧ unended cut.body ≠ 0)
  else Coincides text cut (['\n'].intercalate kept)

section Cuts
variable (hcut : cutOf text "up" = some cut)
include hcut

/-- Nothing is cut exactly where the section has no line. -/
theorem section_nil_iff : sectionOf text "up" = some [] ↔
    cut.body = [] ∧ if cut.after = [] then cut.before.countP endsCrlf = unended cut.before else Lands cut.before := by
  have hlines := (cutOf_append hcut).symm
  have hbefore := offset_add_crlfs_eq (hlines.trans (List.append_assoc ..))
  have hland := lands_iff (hlines.trans (List.append_assoc ..))
  have htext := text_eq hlines
  rw [sectionOf_eq_some hcut]
  by_cases hafter : cut.after = []
  · rw [hafter, List.flatten_nil, List.append_nil] at htext
    rw [if_pos hafter]
    constructor
    · rintro ⟨l, r, hl, hsize, hnil, -⟩
      rw [hnil hafter, List.append_nil, List.append_nil] at hl
      have hbody : cut.body = [] := by
        by_contra hbody
        have hended : unended cut.before = 0 := by_contra fun hne => by
          have hrest := rest_of_unended (hlines.trans (List.append_assoc ..)) hne
          exact hbody (List.append_eq_nil_iff.mp hrest).1
        rw [← hl, htext, List.flatten_append, size_append] at hsize
        have hsmall : cut.body.flatten = [] := by
          have := length_le_size cut.body.flatten
          exact List.length_eq_zero_iff.mp (by omega)
        obtain ⟨line, hline⟩ := List.exists_mem_of_ne_nil _ hbody
        refine rawLines_ne_nil (hlines ▸ List.mem_append_left _ (List.mem_append_right _ hline)) ?_
        exact List.flatten_eq_nil_iff.mp hsmall line hline
      refine ⟨hbody, ?_⟩
      rw [hbody, List.append_nil] at htext
      rw [← hl, htext] at hsize
      omega
    · rintro ⟨hbody, hcount⟩
      rw [hbody, List.append_nil] at htext
      refine ⟨text, [], by simp, ?_, fun _ => rfl, absurd hafter⟩
      rw [htext]
      omega
  · rw [if_neg hafter, ← hland]
    constructor
    · rintro ⟨l, r, hl, hsize, -, hstop⟩
      have hstop := hstop hafter
      rw [List.append_nil] at hl hstop
      rw [offset_append] at hstop
      exact ⟨offset_eq_zero (by omega), l, r, hl, hsize⟩
    · rintro ⟨hbody, l, r, hl, hsize⟩
      refine ⟨l, r, by rw [List.append_nil, hl], hsize, (absurd · hafter), fun _ => ?_⟩
      rw [hbody, List.append_nil, List.append_nil, hsize]

/-- The lines of the section, joined, are cut exactly when they end the file without a line feed. -/
theorem section_join_iff (hbody : cut.body ≠ []) : sectionOf text "up" = some (['\n'].intercalate (cut.body.map stripEnd)) ↔
    cut.after = [] ∧ (cut.before ++ cut.body).countP endsCrlf = 0 ∧ unended cut.body ≠ 0 := by
  have hlines := (cutOf_append hcut).symm
  have hbefore := offset_add_crlfs_eq (hlines.trans (List.append_assoc ..))
  have hboth := offset_add_crlfs_eq hlines
  have hended : unended cut.before = 0 := by_contra fun hne => by
    have hrest := rest_of_unended (hlines.trans (List.append_assoc ..)) hne
    exact hbody (List.append_eq_nil_iff.mp hrest).1
  have hlast : unended (cut.before ++ cut.body) = unended cut.body := by
    rw [unended, unended, List.getLast?_append_of_ne_nil _ hbody]
  have htext := text_eq hlines
  have hjoin := size_join cut.body
  rw [if_neg hbody] at hjoin
  rw [hlast] at hboth
  have hunended := unended_le cut.body
  rw [sectionOf_eq_some hcut]
  constructor
  · rintro ⟨l, r, hl, hsize, hnil, hstop⟩
    have hafter : cut.after = [] := by
      by_contra hafter
      have hstop := hstop hafter
      rw [size_append, offset_append] at hstop
      omega
    rw [hnil hafter, List.append_nil] at hl
    rw [hafter, List.flatten_nil, List.append_nil] at htext
    have hwhole := congrArg size hl
    rw [size_append, htext] at hwhole
    rw [offset_append] at hboth
    exact ⟨hafter, by omega, by omega⟩
  · rintro ⟨hafter, hcrlfs, hne⟩
    rw [List.countP_append] at hcrlfs
    have hdrop (line : List Char) (hline : line ∈ cut.body.dropLast) : ∃ l, line = l ++ ['\n'] := by
      have hsplit : rawLines text = (cut.before ++ cut.body.dropLast) ++ [cut.body.getLast hbody] := by
        rw [List.append_assoc, List.dropLast_append_getLast, hlines, hafter, List.append_nil]
      exact exists_of_mem_rawLines hsplit (List.cons_ne_nil _ _) (List.mem_append_right _ hline)
    refine ⟨cut.before.flatten, [], ?_, by omega, fun _ => rfl, absurd hafter⟩
    rw [join_eq_flatten hdrop (by omega) hne, List.append_nil, ← List.flatten_append, htext, hafter, List.flatten_nil,
      List.append_nil]

/-- The two extractors agree on the up section of a file. -/
theorem section_up_agrees_iff :
    sectionOf text "up" = some (sectionUp text) ↔ Agrees text cut (sectionUpLines false (Text.lines text)) := by
  rw [sectionUp, Agrees]
  generalize sectionUpLines false (Text.lines text) = kept
  split
  · rename_i hkept
    by_cases hbody : cut.body = []
    · have hnil : kept = [] := by
        rcases hkept with rfl | rfl
        · rfl
        · rw [hbody, List.map_nil]
      subst hnil
      have hnone := section_nil_iff hcut
      simpa [hbody, List.intercalate_nil] using hnone
    · rcases hkept with rfl | rfl
      · have hnone := section_nil_iff hcut
        simpa [hbody, List.intercalate_nil] using hnone
      · have hjoin := section_join_iff hcut hbody
        simpa [hbody] using hjoin
  · have hlines := (cutOf_append hcut).symm
    have hbefore := offset_add_crlfs_eq (hlines.trans (List.append_assoc ..))
    have hboth := offset_add_crlfs_eq hlines
    rw [sectionOf_eq_some hcut, Coincides]
    refine exists_congr fun l => exists_congr fun r => and_congr_right fun _ => and_congr ?_ (and_congr_right fun _ => ?_)
    · omega
    · refine forall_congr' fun hafter => ?_
      have hended : unended (cut.before ++ cut.body) = 0 := by_contra fun hne => hafter (rest_of_unended hlines hne)
      omega

end Cuts

end Agree

/-! ### Extraction -/

/-- The sections of a text are what its bodies are, nothing panics, and the command line agrees. -/
structure Extracts (text : List Char) : Prop where
  bodies : ∀ f : TwoSections, f.text = text → sectionOf text "up" = some f.up ∧ sectionOf text "down" = some f.down
  total : ∀ wanted, wanted = "up" ∨ wanted = "down" → sectionOf text wanted ≠ none
  agrees : sectionOf text "up" = some (sectionUp text)

/-- What a text must be like for that, by its lines. -/
structure Extractable (text : List Char) : Prop where
  bodies : ∀ f : TwoSections, f.text = text → f.Exact
  total : ∀ wanted, wanted = "up" ∨ wanted = "down" → ∀ cut, cutOf text wanted = some cut →
    Lands cut.before ∧ (cut.after ≠ [] → Lands (cut.before ++ cut.body))
  agrees : ∀ cut, cutOf text "up" = some cut → Agrees text cut (sectionUpLines false (Text.lines text))

theorem sectionOf_of_none {text : List Char} {wanted : String} (h : cutOf text wanted = none) :
    sectionOf text wanted = some [] := by
  rw [sectionOf_eq, h]

theorem cutLines_some_isSome {wanted : String} {ls before body : List (List Char)} :
    (cutLines wanted ls before (some body)).isSome = true := by
  induction ls generalizing before body with
  | nil => rfl
  | cons line ls ih =>
    rw [cutLines_cons]
    split
    · exact ih
    · dsimp only
      split
      · rfl
      · exact ih

/-- Without an up marker the command line keeps no line. -/
theorem sectionUpLines_of_none {ls before : List (List Char)} (h : cutLines "up" ls before none = none) :
    sectionUpLines false (ls.map stripEnd) = [] := by
  induction ls generalizing before with
  | nil => rfl
  | cons line ls ih =>
    rw [cutLines_cons] at h
    rw [List.map_cons, sectionUpLines, trim_stripEnd]
    split at h
    · have hsome := @cutLines_some_isSome "up" ls (before ++ (none : Option (List (List Char))).getD [] ++ [line]) []
      rw [h] at hsome
      cases hsome
    · rename_i hup
      rw [if_neg hup]
      split
      · rfl
      · simpa using ih h

/-- A file whose last marker has no line feed. -/
def unendedFile : List Char := "-- up\n-- down".toList

end Djangors.Migrations
