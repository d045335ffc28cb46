import Mathlib.Tactic.Common

/-! # Shell commands

How a POSIX shell recognises the tokens of a command, and how a program reads options and operands among its arguments. -/

namespace Shell

local instance lawfulWords : LawfulBEq (List Char) := inferInstance

inductive Token where
  | word (text : List Char)
  | ioNumber (text : List Char)
  | operator (text : List Char)
  deriving DecidableEq

/-- What has been read of the token that a character comes to. -/
inductive State where
  | gap
  | word (text : List Char) (bare : Bool)
  | quoted (text : List Char)
  | escaped (text : List Char)
  | operator (text : List Char)
  deriving DecidableEq

def operators : List (List Char) :=
  ["&", "&&", "|", "||", ";", ";;", "(", ")", "\n", "<", ">", ">>", "<&", ">&", "<>", ">|"].map String.toList

/-- What makes an expansion, a pattern, a comment, a here-document or a reserved word, none of which is read here. -/
def special (c : Char) : Bool := c ∈ "$`\"*?[]#~!{}".toList

/-- A character where no token has begun. -/
def begin (c : Char) : Option State :=
  if c = ' ' ∨ c = '\t' then some .gap
  else if [c] ∈ operators then some (.operator [c])
  else if c = '\'' then some (.quoted [])
  else if c = '\\' then some (.escaped [])
  else if special c then none
  else some (.word [c] true)

/-- A word of digits alone before a redirection is the number of a file. -/
def delimited (text : List Char) (bare : Bool) (c : Char) : Token :=
  if bare ∧ text.all Char.isDigit ∧ (c = '<' ∨ c = '>') then .ioNumber text else .word text

/-- The tokens that a character ends, and what has been read then. -/
def step : State → Char → Option (List Token × State)
  | .gap, c => (begin c).map fun s => ([], s)
  | .word text bare, c =>
    if c = ' ' ∨ c = '\t' ∨ [c] ∈ operators then (begin c).map fun s => ([delimited text bare c], s)
    else if c = '\'' then some ([], .quoted text)
    else if c = '\\' then some ([], .escaped text)
    else if special c then none
    else some ([], .word (text ++ [c]) bare)
  | .quoted text, c => some ([], if c = '\'' then .word text false else .quoted (text ++ [c]))
  | .escaped text, c => if c = '\n' then none else some ([], .word (text ++ [c]) false)
  | .operator text, c =>
    if text ++ [c] ∈ operators then some ([], .operator (text ++ [c]))
    else if text ++ [c] = "<<".toList then none
    else (begin c).map fun s => ([.operator text], s)

def run : State → List Char → Option (List Token × State)
  | s, [] => some ([], s)
  | s, c :: text => (step s c).bind fun r => (run r.2 text).map fun q => (r.1 ++ q.1, q.2)

/-- The token that a command ends with. An open quotation is no end. -/
def finish : State → Option (List Token)
  | .gap => some []
  | .word text _ => some [.word text]
  | .operator text => some [.operator text]
  | .quoted _ | .escaped _ => none

/-- The tokens of a command. -/
def tokens (text : List Char) : Option (List Token) :=
  (run .gap text).bind fun r => (finish r.2).map (r.1 ++ ·)

section Runs
variable {s s' s'' : State} {ts us : List Token} {a b text rest : List Char} {bare : Bool}

theorem run_append (ha : run s a = some (ts, s')) (hb : run s' b = some (us, s'')) :
    run s (a ++ b) = some (ts ++ us, s'') := by
  induction a generalizing s ts with
  | nil =>
    cases ha
    exact hb
  | cons c a ih =>
    rw [run] at ha
    obtain ⟨⟨first, next⟩, hstep, hmap⟩ := Option.bind_eq_some_iff.mp ha
    obtain ⟨⟨more, last⟩, hrun, heq⟩ := Option.map_eq_some_iff.mp hmap
    cases heq
    rw [List.cons_append, run, hstep, Option.bind_some, ih hrun, Option.map_some, List.append_assoc]

/-- A character that ends no token. -/
theorem run_cons {c : Char} (h : step s c = some ([], s')) (text : List Char) : run s (c :: text) = run s' text := by
  rw [run, h, Option.bind_some]
  cases run s' text <;> rfl

theorem step_word_quote (text : List Char) (bare : Bool) : step (.word text bare) '\'' = some ([], .quoted text) := by
  have hnone : ['\''] ∉ operators := by decide
  simp [step, hnone]

theorem step_word_backslash (text : List Char) (bare : Bool) : step (.word text bare) '\\' = some ([], .escaped text) := by
  have hnone : ['\\'] ∉ operators := by decide
  simp [step, hnone]

theorem step_quoted {c : Char} (h : c ≠ '\'') (text : List Char) : step (.quoted text) c = some ([], .quoted (text ++ [c])) := by
  rw [step, if_neg h]

theorem step_quoted_end (text : List Char) : step (.quoted text) '\'' = some ([], .word text false) := by
  rw [step, if_pos rfl]

theorem step_escaped {c : Char} (h : c ≠ '\n') (text : List Char) :
    step (.escaped text) c = some ([], .word (text ++ [c]) false) := by
  rw [step, if_neg h]

theorem step_word_plain {c : Char} (h : begin c = some (.word [c] true)) (hblank : c ≠ ' ' ∧ c ≠ '\t')
    (hoperator : [c] ∉ operators) (hquote : c ≠ '\'' ∧ c ≠ '\\') (text : List Char) (bare : Bool) :
    step (.word text bare) c = some ([], .word (text ++ [c]) bare) := by
  have hspecial : special c = false := by
    by_contra htrue
    rw [Bool.not_eq_false] at htrue
    simp [begin, hblank, hoperator, hquote, htrue] at h
  simp [step, hblank, hoperator, hquote, hspecial]

/-- A blank ends a word. -/
theorem run_word_blank (hhead : text.head? = some ' ') (h : run .gap text = some (ts, s)) (word : List Char) :
    run (.word word bare) text = some (.word word :: ts, s) := by
  obtain ⟨rest, rfl⟩ := List.head?_eq_some_iff.mp hhead
  have hgap : step .gap ' ' = some ([], .gap) := by decide
  have hstep : step (.word word bare) ' ' = some ([.word word], .gap) := by
    simp [step, begin, delimited]
  rw [run_cons hgap] at h
  rw [run, hstep, Option.bind_some, h]
  rfl

/-- Behind a word that was quoted an operator is no redirection of a number. -/
theorem run_word_paren (text : List Char) : run (.word text false) [')'] = some ([.word text], .operator [')']) := by
  have hbegin : begin ')' = some (.operator [')']) := by decide
  have hoperator : [')'] ∈ operators := by decide
  simp [run, step, delimited, hbegin, hoperator]

theorem tokens_of_run (h : run .gap text = some (ts, s)) (hend : finish s = some us) : tokens text = some (ts ++ us) := by
  rw [tokens, h, Option.bind_some, hend]
  rfl

end Runs

/-! ### Options and operands -/

inductive Role where
  | option
  | value
  | operand
  deriving DecidableEq

/-- A word that a program reads as an option: a dash with something behind it. -/
def IsOption (word : List Char) : Prop := word.head? = some '-' ∧ 2 ≤ word.length

instance (word : List Char) : Decidable (IsOption word) := inferInstanceAs (Decidable (_ ∧ _))

/-- How a program reads its arguments, with the options that take the next one. Two dashes end the options. -/
def roles (takesValue : List Char → Bool) : List (List Char) → List (List Char × Role)
  | [] => []
  | word :: words =>
    if word = ['-', '-'] then (word, .option) :: words.map fun w => (w, .operand)
    else if IsOption word then
      match takesValue word, words with
      | true, value :: words => (word, .option) :: (value, .value) :: roles takesValue words
      | _, words => (word, .option) :: roles takesValue words
    else (word, .operand) :: roles takesValue words

section Roles
variable {takesValue : List Char → Bool} {word value : List Char} {words : List (List Char)}

theorem isOption_dashes : IsOption ['-', '-'] := ⟨rfl, by decide⟩

theorem roles_operand (h : ¬IsOption word) : roles takesValue (word :: words) = (word, .operand) :: roles takesValue words := by
  have hdashes : word ≠ ['-', '-'] := fun heq => h (heq ▸ isOption_dashes)
  rw [roles.eq_def]
  simp only [hdashes, h, if_false]

theorem roles_flag (h : IsOption word) (hdashes : word ≠ ['-', '-']) (hflag : takesValue word = false) :
    roles takesValue (word :: words) = (word, .option) :: roles takesValue words := by
  rw [roles.eq_def]
  simp only [hdashes, h, hflag, if_true, if_false]

theorem roles_option (h : IsOption word) (hdashes : word ≠ ['-', '-']) (hvalue : takesValue word = true) :
    roles takesValue (word :: value :: words) = (word, .option) :: (value, .value) :: roles takesValue words := by
  rw [roles.eq_def]
  simp only [hdashes, h, hvalue, if_true, if_false]

variable {expected : List (List Char × Role)}

theorem roles_flag_iff (h : IsOption word) (hdashes : word ≠ ['-', '-']) (hflag : takesValue word = false) :
    roles takesValue (word :: words) = (word, .option) :: expected ↔ roles takesValue words = expected := by
  rw [roles_flag h hdashes hflag, List.cons_inj_right]

theorem roles_option_iff (h : IsOption word) (hdashes : word ≠ ['-', '-']) (hvalue : takesValue word = true) :
    roles takesValue (word :: value :: words) = (word, .option) :: (value, .value) :: expected ↔
      roles takesValue words = expected := by
  rw [roles_option h hdashes hvalue, List.cons_inj_right, List.cons_inj_right]

/-- A word is read as an operand exactly when it does not begin as an option. -/
theorem roles_operand_iff : roles takesValue (word :: words) = (word, .operand) :: expected ↔
    ¬IsOption word ∧ roles takesValue words = expected := by
  by_cases h : IsOption word
  · refine iff_of_false (fun heq => ?_) fun hn => hn.1 h
    have hhead : (roles takesValue (word :: words)).head? = some (word, .option) := by
      rw [roles.eq_def]
      dsimp only
      split
      · rfl
      · split <;> rfl
    rw [heq] at hhead
    cases hhead
  · rw [roles_operand h, List.cons_inj_right, and_iff_right h]

end Roles
end Shell
