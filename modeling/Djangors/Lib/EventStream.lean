import Djangors.Lib.Lines

/-! # Event streams

The grammar of `text/event-stream`: lines that end in CR, LF or CRLF, and the messages that their `data` fields make up. -/

namespace EventStream

/-- A text with its ends of lines read as LF. -/
def newlines : List Char → List Char
  | [] => []
  | c :: text =>
    if c = '\r' then
      if text.head? = some '\n' then newlines text else '\n' :: newlines text
    else c :: newlines text

/-- The lines of a text that have an end. -/
def lines (text : List Char) : List (List Char) := ((newlines text).splitOn '\n').dropLast

/-- A line added to the data of an event. The field is named before the first colon; one space may stand behind it. -/
def readField (data : Option (List Char)) (line : List Char) : Option (List Char) :=
  if line.takeWhile (· ≠ ':') = "data".toList then
    let value := (line.dropWhile (· ≠ ':')).drop 1
    let value := if value.head? = some ' ' then value.drop 1 else value
    some ((data.map (· ++ ['\n'])).getD [] ++ value)
  else data

/-- The messages of lines, with the data read so far. A blank line dispatches what there is. -/
def dispatch : Option (List Char) → List (List Char) → List (List Char)
  | _, [] => []
  | data, line :: lines =>
    if line = [] then data.toList ++ dispatch none lines else dispatch (readField data line) lines

def messages (text : List Char) : List (List Char) := dispatch none (lines text)

/-- The messages of bytes that are UTF-8. -/
def read (bytes : List UInt8) : Option (List (List Char)) := (Text.ofBytes? bytes).map fun text => messages text.toList

/-! ### Ends of lines -/

/-- A text on one line. -/
def OneLine (text : List Char) : Prop := '\r' ∉ text ∧ '\n' ∉ text

@[simp] theorem newlines_cons_lf (text : List Char) : newlines ('\n' :: text) = '\n' :: newlines text := by
  rw [newlines, if_neg (by decide)]

theorem newlines_cons {c : Char} (h : c ≠ '\r') (text : List Char) : newlines (c :: text) = c :: newlines text := by
  rw [newlines, if_neg h]

theorem newlines_oneLine {text : List Char} (h : OneLine text) : newlines text = text := by
  induction text with
  | nil => rfl
  | cons c text ih =>
    have hc : c ≠ '\r' := fun heq => h.1 (heq ▸ List.mem_cons_self ..)
    rw [newlines_cons hc, ih ⟨fun hmem => h.1 (List.mem_cons_of_mem _ hmem), fun hmem => h.2 (List.mem_cons_of_mem _ hmem)⟩]

/-- A text with an end of a line keeps one. -/
theorem oneLine_of_newlines {text : List Char} (h : '\n' ∉ newlines text) : OneLine text := by
  induction text with
  | nil => exact ⟨List.not_mem_nil, List.not_mem_nil⟩
  | cons c text ih =>
    rw [newlines] at h
    split at h
    · split at h
      · rename_i hhead
        obtain ⟨tail, rfl⟩ := List.head?_eq_some_iff.mp hhead
        exact absurd (by simp) h
      · exact absurd (List.mem_cons_self ..) h
    · rename_i hc
      rw [List.mem_cons, not_or] at h
      obtain ⟨hcr, hlf⟩ := ih h.2
      exact ⟨fun hmem => (List.mem_cons.mp hmem).elim (fun heq => hc heq.symm) hcr,
        fun hmem => (List.mem_cons.mp hmem).elim h.1 hlf⟩

/-- Behind an LF a text is read as it is alone. -/
theorem newlines_append_lf (l r : List Char) : newlines (l ++ '\n' :: r) = newlines (l ++ ['\n']) ++ newlines r := by
  induction l with
  | nil => simp [newlines]
  | cons c l ih =>
    have hhead : (l ++ '\n' :: r).head? = (l ++ ['\n']).head? := by cases l <;> rfl
    rw [List.cons_append, List.cons_append, newlines, newlines, hhead, ih]
    split
    · split <;> rfl
    · rfl

/-- An LF behind a text ends its last line, which a CR there has ended. -/
theorem newlines_concat_lf (l : List Char) :
    ∃ body, newlines (l ++ ['\n']) = body ++ ['\n'] ∧ (body = newlines l ∨ body ++ ['\n'] = newlines l) := by
  induction l with
  | nil => exact ⟨[], by simp [newlines], .inl rfl⟩
  | cons c l ih =>
    obtain ⟨body, hbody, hl⟩ := ih
    by_cases hc : c = '\r'
    · subst hc
      cases l with
      | nil => exact ⟨[], by simp [newlines], .inr (by simp [newlines])⟩
      | cons d l =>
        have hhead : ((d :: l) ++ ['\n']).head? = (d :: l).head? := rfl
        rw [List.cons_append, newlines, newlines, if_pos rfl, if_pos rfl, hhead, hbody]
        split
        · exact ⟨body, rfl, hl⟩
        · exact ⟨'\n' :: body, rfl, hl.imp (fun h => by rw [h]) fun h => by rw [List.cons_append, h]⟩
    · rw [List.cons_append, newlines_cons hc, newlines_cons hc, hbody]
      exact ⟨c :: body, rfl, hl.imp (fun h => by rw [h]) fun h => by rw [List.cons_append, h]⟩

/-! ### Lines and messages -/

theorem lines_append {l body : List Char} (hbody : newlines (l ++ ['\n']) = body ++ ['\n']) (r : List Char) :
    lines (l ++ '\n' :: r) = body.splitOn '\n' ++ lines r := by
  rw [lines, newlines_append_lf, hbody, List.append_assoc, List.singleton_append, List.splitOn_append_cons_self,
    List.dropLast_append_of_ne_nil (List.splitOn_ne_nil _ _), lines]

theorem lines_cons_lf (text : List Char) : lines ('\n' :: text) = [] :: lines text := by
  have hblank : newlines ([] ++ ['\n']) = [] ++ ['\n'] := rfl
  simpa using lines_append hblank text

/-- A blank line ends an event. -/
theorem dispatch_append_blank (data : Option (List Char)) (before after : List (List Char)) :
    dispatch data (before ++ [] :: after) = dispatch data (before ++ [[]]) ++ dispatch none after := by
  induction before generalizing data with
  | nil => simp [dispatch]
  | cons line before ih =>
    rw [List.cons_append, List.cons_append, dispatch, dispatch]
    split
    · rw [ih, List.append_assoc]
    · exact ih _

/-- A field adds less than its line has. -/
theorem readField_length (data line : List Char) :
    ∃ data', readField (some data) line = some data' ∧ data'.length ≤ data.length + line.length := by
  rw [readField]
  split
  · rename_i hname
    have hline := congrArg List.length (List.takeWhile_append_dropWhile (p := (· ≠ ':')) (l := line))
    rw [List.length_append, hname] at hline
    refine ⟨_, rfl, ?_⟩
    have hlen : "data".toList.length = 4 := rfl
    simp only [Option.map_some, Option.getD_some, List.length_append, List.length_singleton]
    split <;> simp only [List.length_drop] <;> omega
  · exact ⟨data, rfl, Nat.le_add_right ..⟩

theorem length_le_sum (lines : List (List Char)) : lines.length ≤ (lines.map (·.length + 1)).sum := by
  induction lines with
  | nil => exact Nat.le_refl 0
  | cons line lines ih =>
    rw [List.map_cons, List.sum_cons, List.length_cons]
    omega

/-- The first message is shorter than the lines it is read from, by one for each line behind the first. -/
theorem dispatch_some (data : List Char) (lines : List (List Char)) :
    ∃ message more, dispatch (some data) (lines ++ [[]]) = message :: more ∧
      message.length + lines.length ≤ data.length + (lines.map (·.length + 1)).sum := by
  induction lines generalizing data with
  | nil => exact ⟨data, [], rfl, Nat.le_refl _⟩
  | cons line lines ih =>
    rw [List.cons_append, dispatch, List.map_cons, List.sum_cons, List.length_cons]
    split
    · have hsum := length_le_sum lines
      exact ⟨data, _, rfl, by omega⟩
    · obtain ⟨data', hfield, hlen⟩ := readField_length data line
      obtain ⟨message, more, hdispatch, hmessage⟩ := ih data'
      rw [hfield]
      exact ⟨message, more, hdispatch, by omega⟩

theorem sum_splitOn (text : List Char) : ((text.splitOn '\n').map (·.length + 1)).sum = text.length + 1 := by
  induction text using Text.splitOn_induct '\n' with
  | piece l hl => simp [List.splitOn_eq_singleton hl]
  | more l r hl ih =>
    rw [List.splitOn_append_cons_self, List.splitOn_eq_singleton hl, List.map_append, List.sum_append, ih]
    simp only [List.map_singleton, List.sum_singleton, List.length_append, List.length_cons]
    omega

end EventStream
