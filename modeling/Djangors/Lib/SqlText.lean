import Djangors.Lib.Sql
import Djangors.Lib.Text

/-! # The text of SQL conditions

A condition is read from its text in two passes. The first cuts the text into tokens, with words and signs for operators
that a dialect gives; the second reads the tokens by precedence: `NOT` before `AND` before `OR`. A text that puts every
member of a conjunction or a disjunction in parentheses is read back (`parseOr_tokens`), up to the connectives of one
member, which leave no trace (`Pred.collapse`). -/

namespace Sql

/-- A lexeme of a condition. A placeholder without a number is `none`. -/
inductive Token (ω : Type) where
  | name (s : String)
  | text (s : String)
  | param (n : Option Nat)
  | op (o : ω)
  | and
  | or
  | not
  | true_
  | false_
  | is
  | null
  | in_
  | concat
  | lparen
  | rparen
  | comma
  | dot
deriving DecidableEq, Repr

/-! ## Tokens of a text -/

/-- Characters that go on in one lexeme. -/
inductive CharClass where
  | letter
  | digit
  | sign
  | other
deriving DecidableEq, Repr

def classOf (c : Char) : CharClass :=
  if c.isDigit then .digit
  else if c.isAlpha then .letter
  else if c ∈ ['=', '<', '>', '~', '*', '|'] then .sign
  else .other

/-- What stands before the next character of a text: the start of a lexeme, its characters in reverse. -/
inductive Mode where
  | idle
  | quoted (quote : Char) (read : List Char)
  -- A second quote goes on with the quoted text.
  | closing (quote : Char) (read : List Char)
  | run (k : CharClass) (read : List Char)
deriving DecidableEq, Repr

section Lex
variable {ω : Type} (readOp : String → Option ω)

def wordToken (s : String) : Option (Token ω) :=
  if s = "AND" then some .and
  else if s = "OR" then some .or
  else if s = "NOT" then some .not
  else if s = "TRUE" then some .true_
  else if s = "FALSE" then some .false_
  else if s = "IS" then some .is
  else if s = "NULL" then some .null
  else if s = "IN" then some .in_
  else if s = "||" then some .concat
  else (readOp s).map .op

/-- The token of a lexeme at its end. -/
def Mode.tokens : Mode → Option (List (Token ω))
  | .idle => some []
  | .quoted _ _ => none
  | .closing quote read =>
    some [if quote = '"' then .name (String.ofList read.reverse) else .text (String.ofList read.reverse)]
  | .run .digit read => (Text.digits? read.reverse).map fun n => [.param (some n)]
  | .run _ read => (wordToken readOp (String.ofList read.reverse)).map fun t => [t]

/-- A character between lexemes. -/
def start (c : Char) : Option (Mode × List (Token ω)) :=
  if classOf c = .letter ∨ classOf c = .sign then some (.run (classOf c) [c], [])
  else match c with
    | ' ' => some (.idle, [])
    | '(' => some (.idle, [.lparen])
    | ')' => some (.idle, [.rparen])
    | ',' => some (.idle, [.comma])
    | '.' => some (.idle, [.dot])
    | '?' => some (.idle, [.param none])
    | '$' => some (.run .digit [], [])
    | '"' => some (.quoted '"' [], [])
    | '\'' => some (.quoted '\'' [], [])
    | _ => none

/-- A character that does not go on with the lexeme before it. -/
def Mode.restart (m : Mode) (c : Char) : Option (Mode × List (Token ω)) := do
  let ts ← m.tokens readOp
  let (m', ts') ← start c
  some (m', ts ++ ts')

def Mode.next : Mode → Char → Option (Mode × List (Token ω))
  | .idle, c => start c
  | .quoted quote read, c => some (if c = quote then (.closing quote read, []) else (.quoted quote (c :: read), []))
  | .closing quote read, c =>
    if c = quote then some (.quoted quote (c :: read), []) else restart readOp (.closing quote read) c
  | .run k read, c => if classOf c = k then some (.run k (c :: read), []) else restart readOp (.run k read) c

def lex : Mode → List Char → Option (List (Token ω))
  | m, [] => m.tokens readOp
  | m, c :: cs => do
    let (m', ts) ← m.next readOp c
    (lex m' cs).map (ts ++ ·)

/-- The characters that end a word, a sign, a number and a name. -/
def delimiters : List Char := [' ', ')', ',', '.']

def Delimited (rest : List Char) : Prop := ∀ c ∈ rest.head?, c ∈ delimiters

/-- A text is cut into some tokens wherever something delimits it. -/
def Lexes (s : List Char) (ts : List (Token ω)) : Prop :=
  ∀ rest, Delimited rest → lex readOp .idle (s ++ rest) = (lex readOp .idle rest).map (ts ++ ·)

variable {readOp}

theorem lex_restart {m : Mode} {c : Char} (h : m.next readOp c = m.restart readOp c) (cs : List Char) :
    lex readOp m (c :: cs) = (m.tokens readOp).bind fun ts => (lex readOp .idle (c :: cs)).map (ts ++ ·) := by
  rw [lex, lex, h, Mode.restart, Mode.next]
  cases m.tokens readOp with
  | none => rfl
  | some ts =>
    cases hstart : @start ω c with
    | none => rfl
    | some out =>
      obtain ⟨m', ts'⟩ := out
      simp [List.append_assoc, Function.comp_def]

theorem classOf_delimiter {c : Char} (h : c ∈ delimiters) : classOf c = .other := by
  simp only [delimiters, List.mem_cons, List.not_mem_nil, or_false] at h
  rcases h with rfl | rfl | rfl | rfl <;> rfl

theorem delimited_cons {c : Char} (h : c ∈ delimiters) (cs : List Char) : Delimited (c :: cs) := fun c' hc' => by
  cases hc'
  exact h

theorem lex_start {c : Char} {m : Mode} {ts : List (Token ω)} (h : start c = some (m, ts)) (cs : List Char) :
    lex readOp .idle (c :: cs) = (lex readOp m cs).map (ts ++ ·) := by
  rw [lex, Mode.next, h]
  rfl

theorem start_word {c : Char} {k : CharClass} (hk : k = .letter ∨ k = .sign) (hc : classOf c = k) :
    @start ω c = some (.run k [c], []) := by
  subst hc
  exact if_pos hk

theorem lex_delimited {m : Mode} {rest : List Char} (h : Delimited rest)
    (hnext : ∀ c ∈ delimiters, m.next readOp c = m.restart readOp c) :
    lex readOp m rest = (m.tokens readOp).bind fun ts => (lex readOp .idle rest).map (ts ++ ·) := by
  cases rest with
  | nil =>
    rw [lex, lex]
    cases m.tokens readOp <;> simp [Mode.tokens]
  | cons c cs => exact lex_restart (hnext c (h c rfl)) cs

theorem lex_run {k : CharClass} {s : List Char} (hs : ∀ c ∈ s, classOf c = k) (read rest : List Char) :
    lex readOp (.run k read) (s ++ rest) = lex readOp (.run k (s.reverse ++ read)) rest := by
  induction s generalizing read with
  | nil => rfl
  | cons c s ih =>
    obtain ⟨hc, hs⟩ := List.forall_mem_cons.mp hs
    rw [List.cons_append, lex, Mode.next, if_pos hc, List.reverse_cons, List.append_assoc]
    simpa using ih hs (c :: read)

/-- A run of characters of one class, where it ends. -/
theorem lex_run_end {k : CharClass} (hk : k ≠ .other) {s rest : List Char} (hs : ∀ c ∈ s, classOf c = k) (read : List Char)
    (hrest : Delimited rest) : lex readOp (.run k read) (s ++ rest) =
      ((Mode.run k (s.reverse ++ read)).tokens readOp).bind fun ts => (lex readOp .idle rest).map (ts ++ ·) := by
  rw [lex_run hs]
  refine lex_delimited hrest fun c hc => ?_
  rw [Mode.next, if_neg]
  rw [classOf_delimiter hc]
  exact hk.symm

theorem lex_quoted {quote : Char} {s : List Char} (hs : quote ∉ s) (read rest : List Char) :
    lex readOp (.quoted quote read) (s ++ quote :: rest) = lex readOp (.closing quote (s.reverse ++ read)) rest := by
  induction s generalizing read with
  | nil => simp [lex, Mode.next]
  | cons c s ih =>
    obtain ⟨hc, hs⟩ := not_or.mp (List.mem_cons.not.mp hs)
    rw [List.cons_append, lex, Mode.next, if_neg (Ne.symm hc), List.reverse_cons, List.append_assoc]
    simpa using ih hs (c :: read)

/-- A word or a sign. -/
theorem lex_word {k : CharClass} (hk : k = .letter ∨ k = .sign) {s : List Char} (hne : s ≠ [])
    (hs : ∀ c ∈ s, classOf c = k) {rest : List Char} (hrest : Delimited rest) :
    lex readOp .idle (s ++ rest) = (wordToken readOp (String.ofList s)).bind fun t => (lex readOp .idle rest).map (t :: ·) := by
  obtain ⟨c, s, rfl⟩ := List.exists_cons_of_ne_nil hne
  obtain ⟨hc, hs⟩ := List.forall_mem_cons.mp hs
  have hother : k ≠ .other := by rcases hk with rfl | rfl <;> decide
  have htokens : (Mode.run k (s.reverse ++ [c])).tokens readOp =
      (wordToken readOp (String.ofList (c :: s))).map fun t => [t] := by
    rcases hk with rfl | rfl <;> simp [Mode.tokens]
  rw [List.cons_append, lex_start (start_word hk hc), lex_run_end hother hs [c] hrest, htokens]
  cases wordToken readOp (String.ofList (c :: s)) <;> simp [Function.comp_def]

theorem Lexes.word {k : CharClass} (hk : k = .letter ∨ k = .sign) {s : String} (hne : s.toList ≠ [])
    (hs : ∀ c ∈ s.toList, classOf c = k) {t : Token ω} (ht : wordToken readOp s = some t) :
    Lexes readOp s.toList [t] := by
  intro rest hrest
  rw [lex_word hk hne hs hrest, String.ofList_toList, ht]
  rfl

theorem Lexes.quoted {quote : Char} (hq : quote = '"' ∨ quote = '\'') {s : String} (hs : quote ∉ s.toList) :
    Lexes readOp (quote :: s.toList ++ [quote]) [if quote = '"' then .name s else .text s] := by
  intro rest hrest
  have hstart : @start ω quote = some (.quoted quote [], []) := by rcases hq with rfl | rfl <;> rfl
  have hnext (c : Char) (hc : c ∈ delimiters) :
      (Mode.closing quote (s.toList.reverse ++ [])).next readOp c =
        Mode.restart readOp (.closing quote (s.toList.reverse ++ [])) c := by
    rw [Mode.next, if_neg]
    rintro rfl
    rcases hq with rfl | rfl <;> simp [delimiters] at hc
  rw [List.append_assoc, List.cons_append, lex_start hstart, List.singleton_append, lex_quoted hs, lex_delimited hrest hnext]
  simp [Mode.tokens, Function.comp_def]

theorem Lexes.number (n : Nat) : Lexes readOp ('$' :: (toString n).toList) [.param (some n)] := by
  intro rest hrest
  have hdigits (c : Char) (hc : c ∈ (toString n).toList) : classOf c = .digit :=
    if_pos ((Text.digits_of_toString n).2 c hc)
  have hend := @lex_run_end ω readOp .digit (by decide) _ _ hdigits [] hrest
  rw [Mode.tokens, List.append_nil, List.reverse_reverse, Text.digits?_toString] at hend
  rw [List.cons_append, lex_start rfl, hend]
  simp [Function.comp_def]

theorem lex_blank (s : List Char) : lex readOp .idle (' ' :: s) = lex readOp .idle s := by
  rw [lex_start rfl]
  simp

theorem Lexes.anonymous : Lexes readOp ['?'] [.param none] := fun rest _ => lex_start rfl rest

/-- Texts one after the other with a blank between them. -/
theorem Lexes.blank {s s' : List Char} {ts ts' : List (Token ω)} (h : Lexes readOp s ts) (h' : Lexes readOp s' ts') :
    Lexes readOp (s ++ ' ' :: s') (ts ++ ts') := by
  intro rest hrest
  have hblank : Delimited (' ' :: s' ++ rest) := delimited_cons (by simp [delimiters]) _
  rw [List.append_assoc, h _ hblank, List.cons_append, lex_blank, h' rest hrest]
  simp [Function.comp_def]

/-- A text with a word or a sign that is no token. -/
theorem lex_unknown {s : List Char} {ts : List (Token ω)} (h : Lexes readOp s ts) {k : CharClass}
    (hk : k = .letter ∨ k = .sign) {word : List Char} (hne : word ≠ []) (hword : ∀ c ∈ word, classOf c = k)
    (hnone : wordToken readOp (String.ofList word) = none) (rest : List Char) :
    lex readOp .idle (s ++ ' ' :: (word ++ ' ' :: rest)) = none := by
  have hblank (cs : List Char) : Delimited (' ' :: cs) := delimited_cons (by simp [delimiters]) cs
  rw [h _ (hblank _), lex_blank, lex_word hk hne hword (hblank rest), hnone]
  rfl

/-- A text and a comma behind it. -/
theorem Lexes.comma {s s' : List Char} {ts ts' : List (Token ω)} (h : Lexes readOp s ts) (h' : Lexes readOp s' ts') :
    Lexes readOp (s ++ ',' :: ' ' :: s') (ts ++ .comma :: ts') := by
  intro rest hrest
  have hcomma : Delimited (',' :: ' ' :: s' ++ rest) := delimited_cons (by simp [delimiters]) _
  rw [List.append_assoc, h _ hcomma, List.cons_append, lex_start rfl, List.cons_append, lex_blank, h' rest hrest]
  simp [Function.comp_def]

/-- A text and a dot behind it. -/
theorem Lexes.dot {s s' : List Char} {ts ts' : List (Token ω)} (h : Lexes readOp s ts) (h' : Lexes readOp s' ts') :
    Lexes readOp (s ++ '.' :: s') (ts ++ .dot :: ts') := by
  intro rest hrest
  have hdot : Delimited ('.' :: s' ++ rest) := delimited_cons (by simp [delimiters]) _
  rw [List.append_assoc, h _ hdot, List.cons_append, lex_start rfl, h' rest hrest]
  simp [Function.comp_def]

/-- A text in parentheses. -/
theorem Lexes.paren {s : List Char} {ts : List (Token ω)} (h : Lexes readOp s ts) :
    Lexes readOp ('(' :: s ++ [')']) (.lparen :: ts ++ [.rparen]) := by
  intro rest _
  have hparen : Delimited (')' :: rest) := delimited_cons (by simp [delimiters]) _
  rw [List.append_assoc, List.cons_append, lex_start rfl, List.singleton_append, h _ hparen, lex_start rfl]
  simp [Function.comp_def]

end Lex

/-! ## Placeholders without a number -/

/-- Numbers the placeholders that have no number, from `k` on. -/
def number {ω : Type} : Nat → List (Token ω) → List (Token ω)
  | _, [] => []
  | k, .param none :: ts => .param (some k) :: number (k + 1) ts
  | k, t :: ts => t :: number k ts

/-! ## Conditions of tokens -/

section Parse
variable {ω : Type}

def parseColumn : List (Token ω) → Option (ColRef × List (Token ω))
  | .name t :: .dot :: .name c :: ts => some (.qualified t c, ts)
  | .name c :: ts => some (.column c, ts)
  | _ => none

/-- A wildcard behind a column. -/
def parseSuffix : List (Token ω) → Bool × List (Token ω)
  | .concat :: .text s :: ts => if s = "%" then (true, ts) else (false, .concat :: .text s :: ts)
  | ts => (false, ts)

/-- The right-hand side of a comparison; `||` binds closer than the operator. -/
def parseOperand : List (Token ω) → Option (Operand Nat × List (Token ω))
  | .param (some n) :: ts => some (.param n, ts)
  | .text s :: .concat :: ts => do
    let (c, ts) ← if s = "%" then parseColumn ts else none
    let (after, ts) := parseSuffix ts
    some (.pattern true after c, ts)
  | ts => do
    let (c, ts) ← parseColumn ts
    let (after, ts) := parseSuffix ts
    some (if after then .pattern false true c else .column c, ts)

/-- The members of a list behind its first one. -/
def parseItems : List (Token ω) → Option (List Nat × List (Token ω))
  | .comma :: .param (some n) :: ts => (parseItems ts).map fun (ns, ts) => (n :: ns, ts)
  | .rparen :: ts => some ([], ts)
  | _ => none

/-- What is said of a column. -/
def parsePredicate (c : ColRef) : List (Token ω) → Option (Pred ω Nat × List (Token ω))
  | .is :: .not :: .null :: ts => some (.isNull c true, ts)
  | .is :: .null :: ts => some (.isNull c false, ts)
  | .in_ :: .lparen :: .param (some n) :: ts => (parseItems ts).map fun (ns, ts) => (.inList c (n :: ns), ts)
  | .op o :: ts => (parseOperand ts).map fun (r, ts) => (.cmp c o r, ts)
  | _ => none

/-- One member is no conjunction. -/
def joinConj : List (Pred ω Nat) → Pred ω Nat
  | [p] => p
  | ps => .conj ps

def joinDisj : List (Pred ω Nat) → Pred ω Nat
  | [p] => p
  | ps => .disj ps

mutual

def parseOr : Nat → List (Token ω) → Option (Pred ω Nat × List (Token ω))
  | 0, _ => none
  | n + 1, ts => do
    let (p, ts) ← parseAnd n ts
    let (ps, ts) ← parseOrs n ts
    some (joinDisj (p :: ps), ts)

/-- The members of a disjunction behind its first one. -/
def parseOrs : Nat → List (Token ω) → Option (List (Pred ω Nat) × List (Token ω))
  | 0, _ => none
  | n + 1, .or :: ts => do
    let (p, ts) ← parseAnd n ts
    let (ps, ts) ← parseOrs n ts
    some (p :: ps, ts)
  | _ + 1, ts => some ([], ts)

def parseAnd : Nat → List (Token ω) → Option (Pred ω Nat × List (Token ω))
  | 0, _ => none
  | n + 1, ts => do
    let (p, ts) ← parseNot n ts
    let (ps, ts) ← parseAnds n ts
    some (joinConj (p :: ps), ts)

/-- The members of a conjunction behind its first one. -/
def parseAnds : Nat → List (Token ω) → Option (List (Pred ω Nat) × List (Token ω))
  | 0, _ => none
  | n + 1, .and :: ts => do
    let (p, ts) ← parseNot n ts
    let (ps, ts) ← parseAnds n ts
    some (p :: ps, ts)
  | _ + 1, ts => some ([], ts)

def parseNot : Nat → List (Token ω) → Option (Pred ω Nat × List (Token ω))
  | 0, _ => none
  | n + 1, .not :: ts => (parseNot n ts).map fun (p, ts) => (.neg p, ts)
  | n + 1, ts => parsePrimary n ts

def parsePrimary : Nat → List (Token ω) → Option (Pred ω Nat × List (Token ω))
  | 0, _ => none
  | n + 1, .lparen :: ts => do
    match ← parseOr n ts with
    | (p, .rparen :: ts) => some (p, ts)
    | _ => none
  | _, .true_ :: ts => some (.conj [], ts)
  | _, .false_ :: ts => some (.disj [], ts)
  | _, ts => do
    let (c, ts) ← parseColumn ts
    parsePredicate c ts

end

/-- The condition that some tokens are. Every parenthesis and every connective takes less than five steps. -/
def parse (ts : List (Token ω)) : Option (Pred ω Nat) :=
  match parseOr (5 * ts.length + 5) ts with
  | some (p, []) => some p
  | _ => none

end Parse

/-! ## Tokens of a condition -/

section Tokens
variable {ω : Type}

def ColRef.tokens : ColRef → List (Token ω)
  | .bare _ => []
  | .column c => [.name c]
  | .qualified t c => [.name t, .dot, .name c]

def Operand.tokens (shown : Nat → Option Nat) : Operand Nat → List (Token ω)
  | .param n => [.param (shown n)]
  | .column c => c.tokens
  | .pattern before after c =>
    (if before then [.text "%", .concat] else []) ++ c.tokens ++ if after then [.concat, .text "%"] else []

/-- The members of a list behind its first one. -/
def itemTokens (shown : Nat → Option Nat) (items : List Nat) : List (Token ω) :=
  items.flatMap fun n => [.comma, .param (shown n)]

mutual

/-- The tokens of a condition, whose placeholders show their numbers or not. -/
def Pred.tokens (shown : Nat → Option Nat) : Pred ω Nat → List (Token ω)
  | .cmp l o r => l.tokens ++ .op o :: r.tokens shown
  | .inList l [] => l.tokens ++ [.in_, .lparen, .rparen]
  | .inList l (n :: ns) => l.tokens ++ .in_ :: .lparen :: .param (shown n) :: itemTokens shown ns ++ [.rparen]
  | .isNull l negated => l.tokens ++ .is :: if negated then [.not, .null] else [.null]
  | .conj [] => [.true_]
  | .conj (p :: ps) => .lparen :: p.tokens shown ++ .rparen :: Pred.tokensAll shown .and ps
  | .disj [] => [.false_]
  | .disj (p :: ps) => .lparen :: p.tokens shown ++ .rparen :: Pred.tokensAll shown .or ps
  | .neg p => .not :: .lparen :: p.tokens shown ++ [.rparen]
  | .exists_ _ _ _ => []
  | .raw _ => []

/-- The members of a connective behind its first one. -/
def Pred.tokensAll (shown : Nat → Option Nat) (connective : Token ω) : List (Pred ω Nat) → List (Token ω)
  | [] => []
  | p :: ps => connective :: .lparen :: p.tokens shown ++ .rparen :: Pred.tokensAll shown connective ps

end

/-- A name that its quotes enclose. -/
def ColRef.Readable : ColRef → Prop
  | .bare _ => False
  | .column c => '"' ∉ c.toList
  | .qualified t c => '"' ∉ t.toList ∧ '"' ∉ c.toList

def Operand.Readable {π : Type} : Operand π → Prop
  | .param _ => True
  | .column c => c.Readable
  | .pattern before after c => c.Readable ∧ (before = true ∨ after = true)

mutual

/-- A condition that its tokens determine, with known operators. -/
def Pred.Readable {π : Type} (known : ω → Prop) : Pred ω π → Prop
  | .cmp l o r => l.Readable ∧ known o ∧ r.Readable
  | .inList l items => l.Readable ∧ items ≠ []
  | .isNull l _ => l.Readable
  | .conj ps => Pred.AllReadable known ps
  | .disj ps => Pred.AllReadable known ps
  | .neg p => p.Readable known
  | .exists_ _ _ _ => False
  | .raw _ => False

def Pred.AllReadable {π : Type} (known : ω → Prop) : List (Pred ω π) → Prop
  | [] => True
  | p :: ps => p.Readable known ∧ Pred.AllReadable known ps

end

theorem Pred.allReadable_iff {π : Type} {known : ω → Prop} {ps : List (Pred ω π)} :
    Pred.AllReadable known ps ↔ ∀ p ∈ ps, p.Readable known := by
  induction ps with
  | nil => simp [Pred.AllReadable]
  | cons p ps ih => rw [Pred.AllReadable, ih, List.forall_mem_cons]

mutual

/-- The condition without the connectives of one member. -/
def Pred.collapse : Pred ω Nat → Pred ω Nat
  | .conj ps => joinConj (Pred.collapseAll ps)
  | .disj ps => joinDisj (Pred.collapseAll ps)
  | .neg p => .neg p.collapse
  | .cmp l o r => .cmp l o r
  | .inList l items => .inList l items
  | .isNull l negated => .isNull l negated
  | .exists_ negated t ps => .exists_ negated t ps
  | .raw t => .raw t

def Pred.collapseAll : List (Pred ω Nat) → List (Pred ω Nat)
  | [] => []
  | p :: ps => p.collapse :: Pred.collapseAll ps

end

theorem Pred.collapseAll_eq_map (ps : List (Pred ω Nat)) : Pred.collapseAll ps = ps.map Pred.collapse := by
  induction ps with
  | nil => rfl
  | cons p ps ih => rw [Pred.collapseAll, List.map_cons, ih]

end Tokens

/-! ## Conditions without connectives of one member -/

section Collapse
variable {ω κ : Type} {I : Interp ω κ} {db : Tables κ} {val : Nat → κ} {env : List (Frame κ)}

theorem eval_joinConj (ps : List (Pred ω Nat)) :
    ((joinConj ps).map val).eval I db env = Pred.evalConj I db env (Pred.mapAll val ps) := by
  match ps with
  | [] => rfl
  | [p] => rw [joinConj, Pred.mapAll, Pred.mapAll, Pred.evalConj, Pred.evalConj, and3_true]
  | p :: q :: ps => rfl

theorem eval_joinDisj (ps : List (Pred ω Nat)) :
    ((joinDisj ps).map val).eval I db env = Pred.evalDisj I db env (Pred.mapAll val ps) := by
  match ps with
  | [] => rfl
  | [p] => rw [joinDisj, Pred.mapAll, Pred.mapAll, Pred.evalDisj, Pred.evalDisj, or3_false]
  | p :: q :: ps => rfl

theorem evalAll_collapse {ps : List (Pred ω Nat)}
    (h : ∀ p ∈ ps, (p.collapse.map val).eval I db env = (p.map val).eval I db env) :
    Pred.evalConj I db env (Pred.mapAll val (Pred.collapseAll ps)) = Pred.evalConj I db env (Pred.mapAll val ps) ∧
      Pred.evalDisj I db env (Pred.mapAll val (Pred.collapseAll ps)) = Pred.evalDisj I db env (Pred.mapAll val ps) := by
  induction ps with
  | nil => exact ⟨rfl, rfl⟩
  | cons p ps ih =>
    obtain ⟨hp, hps⟩ := List.forall_mem_cons.mp h
    obtain ⟨hconj, hdisj⟩ := ih hps
    simp only [Pred.collapseAll, Pred.mapAll, Pred.evalConj, Pred.evalDisj, hp, hconj, hdisj, and_self]

theorem eval_collapse (p : Pred ω Nat) : (p.collapse.map val).eval I db env = (p.map val).eval I db env := by
  induction p using Pred.ind with
  | conj ps ih => exact (eval_joinConj _).trans (evalAll_collapse ih).1
  | disj ps ih => exact (eval_joinDisj _).trans (evalAll_collapse ih).2
  | neg p ih => exact congrArg (Option.map (!·)) ih
  | _ => rfl

theorem params_joinConj (ps : List (Pred ω Nat)) : (joinConj ps).params = Pred.paramsAll ps := by
  match ps with
  | [] => rfl
  | [p] => simp [joinConj, Pred.paramsAll]
  | p :: q :: ps => rfl

theorem params_joinDisj (ps : List (Pred ω Nat)) : (joinDisj ps).params = Pred.paramsAll ps := by
  match ps with
  | [] => rfl
  | [p] => simp [joinDisj, Pred.paramsAll]
  | p :: q :: ps => rfl

theorem paramsAll_collapse {ps : List (Pred ω Nat)} (h : ∀ p ∈ ps, p.collapse.params = p.params) :
    Pred.paramsAll (Pred.collapseAll ps) = Pred.paramsAll ps := by
  induction ps with
  | nil => rfl
  | cons p ps ih =>
    obtain ⟨hp, hps⟩ := List.forall_mem_cons.mp h
    rw [Pred.collapseAll, Pred.paramsAll, Pred.paramsAll, hp, ih hps]

theorem params_collapse (p : Pred ω Nat) : p.collapse.params = p.params := by
  induction p using Pred.ind with
  | conj ps ih => exact (params_joinConj _).trans (paramsAll_collapse ih)
  | disj ps ih => exact (params_joinDisj _).trans (paramsAll_collapse ih)
  | neg p ih => exact ih
  | _ => rfl

end Collapse

/-! ## Reading tokens back -/

section Numbering
variable {ω : Type}

theorem number_column (k : Nat) (c : ColRef) (rest : List (Token ω)) :
    number k (c.tokens ++ rest) = c.tokens ++ number k rest := by
  cases c <;> rfl

theorem number_suffix (k : Nat) (after : Bool) (rest : List (Token ω)) :
    number k ((if after then [.concat, .text "%"] else []) ++ rest) =
      (if after then [.concat, .text "%"] else []) ++ number k rest := by
  cases after <;> rfl

theorem number_operand {k : Nat} {o : Operand Nat} (h : o.params = List.range' k o.params.length)
    (rest : List (Token ω)) :
    number k (o.tokens (fun _ => none) ++ rest) = o.tokens some ++ number (k + o.params.length) rest := by
  cases o with
  | param n =>
    obtain rfl : n = k := by simpa [Operand.params] using h
    rfl
  | column c => exact number_column k c rest
  | pattern before after c =>
    cases before with
    | false => simp [Operand.tokens, Operand.params, number_column, number_suffix]
    | true => simp [Operand.tokens, Operand.params, number, number_column, number_suffix]

theorem number_items {k : Nat} (items : List Nat) (h : items = List.range' k items.length) (rest : List (Token ω)) :
    number k (itemTokens (fun _ => none) items ++ rest) = itemTokens some items ++ number (k + items.length) rest := by
  induction items generalizing k with
  | nil => rfl
  | cons n ns ih =>
    rw [List.length_cons, List.range'_succ, List.cons.injEq] at h
    obtain ⟨rfl, hns⟩ := h
    have hrest := ih hns
    rw [itemTokens] at hrest
    simp [itemTokens, number, hrest, Nat.add_assoc, Nat.add_comm 1]

/-- Successive numbers are cut into successive numbers. -/
theorem range'_of_append {k : Nat} {xs ys : List Nat} (h : xs ++ ys = List.range' k (xs ++ ys).length) :
    xs = List.range' k xs.length ∧ ys = List.range' (k + xs.length) ys.length := by
  rw [List.length_append, ← List.range'_append_1] at h
  exact List.append_inj h (by simp)

theorem number_tokensAll {connective : Token ω} (hc : connective ≠ .param none) {ps : List (Pred ω Nat)}
    (ih : ∀ p ∈ ps, ∀ k, p.params = List.range' k p.params.length → ∀ rest,
      number k (p.tokens (fun _ => none) ++ rest) = p.tokens some ++ number (k + p.params.length) rest)
    {k : Nat} (h : Pred.paramsAll ps = List.range' k (Pred.paramsAll ps).length) (rest : List (Token ω)) :
    number k (Pred.tokensAll (fun _ => none) connective ps ++ rest) =
      Pred.tokensAll some connective ps ++ number (k + (Pred.paramsAll ps).length) rest := by
  induction ps generalizing k with
  | nil => rfl
  | cons p ps ihps =>
    obtain ⟨hp, hps⟩ := List.forall_mem_cons.mp ih
    obtain ⟨hfirst, hothers⟩ := range'_of_append h
    have hconnective (ts : List (Token ω)) : number k (connective :: ts) = connective :: number k ts := by
      cases connective with
      | param n =>
        cases n with
        | none => exact absurd rfl hc
        | some n => rfl
      | _ => rfl
    simp only [Pred.tokensAll, Pred.paramsAll, List.cons_append, List.append_assoc, hconnective, number, hp k hfirst,
      ihps hps hothers, List.length_append, Nat.add_assoc]

/-- Placeholders that are numbered in the order of the text need not show their numbers. -/
theorem number_tokens {known : ω → Prop} (p : Pred ω Nat) (hread : p.Readable known) {k : Nat}
    (h : p.params = List.range' k p.params.length) (rest : List (Token ω)) :
    number k (p.tokens (fun _ => none) ++ rest) = p.tokens some ++ number (k + p.params.length) rest := by
  induction p using Pred.ind generalizing k rest with
  | cmp l o r =>
    simp only [Pred.tokens, List.append_assoc, List.cons_append, number_column, number]
    rw [number_operand h]
    rfl
  | inList l items =>
    cases items with
    | nil => simp [Pred.tokens, Pred.params, number_column, number]
    | cons n ns =>
      rw [Pred.params, List.length_cons, List.range'_succ, List.cons.injEq] at h
      obtain ⟨rfl, hns⟩ := h
      simp [Pred.tokens, Pred.params, number_column, number, number_items ns hns, Nat.add_assoc, Nat.add_comm 1]
  | isNull l negated => cases negated <;> simp [Pred.tokens, Pred.params, number_column, number]
  | conj ps ih =>
    cases ps with
    | nil => rfl
    | cons p ps =>
      obtain ⟨hp, hps⟩ := List.forall_mem_cons.mp ih
      obtain ⟨hfirst, hothers⟩ := range'_of_append h
      obtain ⟨hreadp, hreads⟩ := hread
      have hrest := @number_tokensAll ω .and (by simp) ps
        (fun q hq k hk => hps q hq (Pred.allReadable_iff.mp hreads q hq) hk) _ hothers rest
      simp only [Pred.tokens, Pred.params, Pred.paramsAll, List.cons_append, List.append_assoc, number, hp hreadp hfirst,
        hrest, List.length_append, Nat.add_assoc]
  | disj ps ih =>
    cases ps with
    | nil => rfl
    | cons p ps =>
      obtain ⟨hp, hps⟩ := List.forall_mem_cons.mp ih
      obtain ⟨hfirst, hothers⟩ := range'_of_append h
      obtain ⟨hreadp, hreads⟩ := hread
      have hrest := @number_tokensAll ω .or (by simp) ps
        (fun q hq k hk => hps q hq (Pred.allReadable_iff.mp hreads q hq) hk) _ hothers rest
      simp only [Pred.tokens, Pred.params, Pred.paramsAll, List.cons_append, List.append_assoc, number, hp hreadp hfirst,
        hrest, List.length_append, Nat.add_assoc]
  | neg p ih =>
    simp only [Pred.tokens, Pred.params, List.cons_append, List.append_assoc, number, ih hread h, List.nil_append]
  | exists_ negated t ps ih => exact hread.elim
  | raw t => exact hread.elim

end Numbering

section RoundTrip
variable {ω : Type}

/-- Nothing goes on behind a condition. -/
def Ends (rest : List (Token ω)) : Prop := ∀ t ∈ rest.head?, t = .rparen

/-- A conjunction ends where no `AND` follows. -/
theorem parseAnds_stop (n : Nat) {rest : List (Token ω)} (h : ∀ ts, rest ≠ .and :: ts) :
    parseAnds (n + 1) rest = some ([], rest) := by
  rw [parseAnds]
  exact h

theorem parseOrs_stop (n : Nat) {rest : List (Token ω)} (h : ∀ ts, rest ≠ .or :: ts) :
    parseOrs (n + 1) rest = some ([], rest) := by
  rw [parseOrs]
  exact h

theorem Ends.ne {rest ts : List (Token ω)} (h : Ends rest) {t : Token ω} (ht : t ≠ .rparen) : rest ≠ t :: ts := by
  rintro rfl
  exact ht (h t rfl)

/-- What is neither a conjunction nor a disjunction is read alone. -/
theorem parseOr_of_not {n : Nat} {ts rest : List (Token ω)} {p : Pred ω Nat} (h : parseNot (n + 1) ts = some (p, rest))
    (hrest : Ends rest) : parseOr (n + 3) ts = some (p, rest) := by
  have hands := parseAnds_stop n fun ts => hrest.ne (t := .and) nofun
  have hors := parseOrs_stop (n + 1) fun ts => hrest.ne (t := .or) nofun
  simp [parseOr, parseAnd, h, hands, hors, joinConj, joinDisj]

theorem parseColumn_tokens {c : ColRef} (hc : c.Readable) {rest : List (Token ω)} (hrest : ∀ ts, rest ≠ .dot :: ts) :
    parseColumn (c.tokens ++ rest) = some (c, rest) := by
  cases c with
  | bare s => exact hc.elim
  | qualified t c => rfl
  | column c =>
    show parseColumn (.name c :: rest) = _
    rw [parseColumn]
    rintro c' ts rfl
    exact hrest _ rfl

theorem parseSuffix_tokens (after : Bool) {rest : List (Token ω)} (hrest : Ends rest) :
    parseSuffix ((if after then [.concat, .text "%"] else []) ++ rest) = (after, rest) := by
  cases after with
  | true => rfl
  | false =>
    show parseSuffix rest = _
    rw [parseSuffix]
    rintro s ts rfl
    exact absurd (hrest _ rfl) nofun

theorem suffix_ne_dot {after : Bool} {rest : List (Token ω)} (hrest : Ends rest) (ts : List (Token ω)) :
    (if after then [.concat, .text "%"] else []) ++ rest ≠ .dot :: ts := by
  cases after with
  | false => exact hrest.ne nofun
  | true => exact fun h => absurd (List.cons.inj h).1 nofun

/-- A column with or without a wildcard behind it. -/
theorem parseOperand_column {c : ColRef} (hc : c.Readable) (after : Bool) {rest : List (Token ω)} (hrest : Ends rest) :
    parseOperand (c.tokens ++ ((if after then [.concat, .text "%"] else []) ++ rest)) =
      some (if after then .pattern false true c else .column c, rest) := by
  have hcolumn := parseColumn_tokens hc (@suffix_ne_dot _ after _ hrest)
  have hsuffix := parseSuffix_tokens after hrest
  cases c with
  | bare s => exact hc.elim
  | _ =>
    rw [ColRef.tokens, List.cons_append] at hcolumn ⊢
    simp only [parseOperand, hcolumn, Option.bind_eq_bind, Option.bind_some, hsuffix]

theorem parseOperand_tokens {o : Operand Nat} (ho : o.Readable) {rest : List (Token ω)} (hrest : Ends rest) :
    parseOperand (o.tokens some ++ rest) = some (o, rest) := by
  cases o with
  | param n => rfl
  | column c => exact parseOperand_column ho false hrest
  | pattern before after c =>
    obtain ⟨hc, hwild⟩ := ho
    cases before with
    | false =>
      obtain rfl : after = true := by simpa using hwild
      simpa [Operand.tokens] using parseOperand_column hc true hrest
    | true =>
      have hcolumn := parseColumn_tokens hc (@suffix_ne_dot _ after _ hrest)
      simp [Operand.tokens, parseOperand, hcolumn, parseSuffix_tokens after hrest]

theorem parseItems_tokens (items : List Nat) (rest : List (Token ω)) :
    parseItems (itemTokens some items ++ .rparen :: rest) = some (items, rest) := by
  induction items with
  | nil => rfl
  | cons n ns ih =>
    rw [itemTokens] at ih
    simp [itemTokens, parseItems, ih]

/-- A column and what is said of it. -/
theorem parsePrimary_column (n : Nat) {c : ColRef} (hc : c.Readable) {ts : List (Token ω)}
    (hts : ∀ rest, ts ≠ .dot :: rest) :
    parsePrimary (n + 1) (c.tokens ++ ts) = parsePredicate c ts := by
  have hcolumn := parseColumn_tokens hc hts
  cases c with
  | bare s => exact hc.elim
  | _ =>
    rw [ColRef.tokens, List.cons_append] at hcolumn ⊢
    rw [parsePrimary, hcolumn] <;> first | rfl | nofun

/-- What is said of a column is read back. -/
theorem parsePrimary_predicate {p : Pred ω Nat} (n : Nat) {c : ColRef} {said : List (Token ω)} (hc : c.Readable)
    {rest : List (Token ω)} (hsaid : ∀ ts, said ++ rest ≠ .dot :: ts)
    (h : parsePredicate c (said ++ rest) = some (p, rest)) :
    parseNot (n + 2) (c.tokens ++ said ++ rest) = some (p, rest) := by
  have hprimary := (parsePrimary_column n hc hsaid).trans h
  rw [List.append_assoc, ← hprimary]
  cases c with
  | bare s => exact hc.elim
  | _ =>
    rw [ColRef.tokens, List.cons_append, parseNot]
    nofun

theorem parseNot_group {n : Nat} {p : Pred ω Nat} {ts rest : List (Token ω)}
    (h : parseOr n (ts ++ .rparen :: rest) = some (p, .rparen :: rest)) :
    parseNot (n + 2) (.lparen :: ts ++ .rparen :: rest) = some (p, rest) := by
  simp [parseNot, parsePrimary, h]

/-- The condition is read back when something ends it. -/
def Pred.ReadsBack (p : Pred ω Nat) : Prop :=
  ∀ n rest, Ends rest → 5 * (p.tokens some).length + 5 ≤ n →
    parseOr n (p.tokens some ++ rest) = some (p.collapse, rest)

theorem Pred.ReadsBack.group {p : Pred ω Nat} (h : p.ReadsBack) {n : Nat} (hn : 5 * (p.tokens some).length + 7 ≤ n)
    (rest : List (Token ω)) :
    parseNot n (.lparen :: p.tokens some ++ .rparen :: rest) = some (p.collapse, rest) := by
  obtain ⟨n, rfl⟩ : ∃ k, n = k + 2 := ⟨n - 2, by omega⟩
  exact parseNot_group (h n _ (fun t ht => (Option.some.inj ht).symm) (by omega))

theorem Pred.ReadsBack.member {p : Pred ω Nat} (h : p.ReadsBack) {n : Nat} (hn : 5 * (p.tokens some).length + 8 ≤ n)
    {rest : List (Token ω)} (hrest : ∀ ts, rest ≠ .and :: ts) :
    parseAnd n (.lparen :: p.tokens some ++ .rparen :: rest) = some (p.collapse, rest) := by
  obtain ⟨n, rfl⟩ : ∃ k, n = k + 2 := ⟨n - 2, by omega⟩
  have hnot := h.group (n := n + 1) (by omega) rest
  rw [parseAnd, hnot]
  simp [parseAnds_stop n hrest, joinConj]

theorem parseAnds_tokens {ps : List (Pred ω Nat)} (h : ∀ p ∈ ps, p.ReadsBack) {n : Nat} {rest : List (Token ω)}
    (hrest : Ends rest) (hn : 5 * (Pred.tokensAll some .and ps).length + 1 ≤ n) :
    parseAnds n (Pred.tokensAll some .and ps ++ rest) = some (Pred.collapseAll ps, rest) := by
  induction ps generalizing n with
  | nil =>
    obtain ⟨n, rfl⟩ : ∃ k, n = k + 1 := ⟨n - 1, by simp [Pred.tokensAll] at hn; omega⟩
    exact parseAnds_stop n fun ts => hrest.ne nofun
  | cons p ps ih =>
    obtain ⟨hp, hps⟩ := List.forall_mem_cons.mp h
    simp only [Pred.tokensAll, List.length_cons, List.length_append] at hn
    obtain ⟨n, rfl⟩ : ∃ k, n = k + 1 := ⟨n - 1, by omega⟩
    have hgroup := hp.group (n := n) (by omega) (Pred.tokensAll some .and ps ++ rest)
    have hothers := ih hps (n := n) (by omega)
    rw [List.cons_append] at hgroup
    simp only [Pred.tokensAll, List.cons_append, List.append_assoc, parseAnds, hgroup, hothers,
      Pred.collapseAll, Option.bind_eq_bind, Option.bind_some]

theorem parseOrs_tokens {ps : List (Pred ω Nat)} (h : ∀ p ∈ ps, p.ReadsBack) {n : Nat} {rest : List (Token ω)}
    (hrest : Ends rest) (hn : 5 * (Pred.tokensAll some .or ps).length + 1 ≤ n) :
    parseOrs n (Pred.tokensAll some .or ps ++ rest) = some (Pred.collapseAll ps, rest) := by
  induction ps generalizing n with
  | nil =>
    obtain ⟨n, rfl⟩ : ∃ k, n = k + 1 := ⟨n - 1, by simp [Pred.tokensAll] at hn; omega⟩
    exact parseOrs_stop n fun ts => hrest.ne nofun
  | cons p ps ih =>
    obtain ⟨hp, hps⟩ := List.forall_mem_cons.mp h
    simp only [Pred.tokensAll, List.length_cons, List.length_append] at hn
    obtain ⟨n, rfl⟩ : ∃ k, n = k + 1 := ⟨n - 1, by omega⟩
    -- behind a member stands a further one or the end, never `AND`
    have hnext (ts : List (Token ω)) : Pred.tokensAll some .or ps ++ rest ≠ .and :: ts := by
      cases ps with
      | nil => exact hrest.ne nofun
      | cons q qs => exact fun h => absurd (List.cons.inj h).1 nofun
    have hmember := hp.member (n := n) (by omega) hnext
    have hothers := ih hps (n := n) (by omega)
    rw [List.cons_append] at hmember
    simp only [Pred.tokensAll, List.cons_append, List.append_assoc, parseOrs, hmember, hothers,
      Pred.collapseAll, Option.bind_eq_bind, Option.bind_some]

/-- A leaf: a column and what is said of it. -/
theorem readsBack_leaf {p : Pred ω Nat} {c : ColRef} {t : Token ω} {said : List (Token ω)} (hc : c.Readable)
    (htokens : p.tokens some = c.tokens ++ t :: said) (hcollapse : p.collapse = p) (ht : t ≠ .dot)
    (h : ∀ rest, Ends rest → parsePredicate c (t :: said ++ rest) = some (p, rest)) : p.ReadsBack := by
  intro n rest hrest hn
  obtain ⟨n, rfl⟩ : ∃ k, n = k + 4 := ⟨n - 4, by omega⟩
  rw [htokens, hcollapse]
  have hdot (ts : List (Token ω)) : t :: said ++ rest ≠ .dot :: ts := fun heq => ht (List.cons.inj heq).1
  exact parseOr_of_not (parsePrimary_predicate n hc hdot (h rest hrest)) hrest

/-- A readable condition is read back from its tokens. -/
theorem parseOr_tokens {known : ω → Prop} {p : Pred ω Nat} (hread : p.Readable known) : p.ReadsBack := by
  induction p using Pred.ind with
  | cmp l o r =>
    obtain ⟨hl, -, hr⟩ := hread
    refine readsBack_leaf (t := .op o) hl (by rw [Pred.tokens]) rfl nofun fun rest hrest => ?_
    rw [List.cons_append, parsePredicate, parseOperand_tokens hr hrest]
    rfl
  | inList l items =>
    obtain ⟨hl, hne⟩ := hread
    cases items with
    | nil => exact absurd rfl hne
    | cons k ks =>
      refine readsBack_leaf (t := .in_) hl (by rw [Pred.tokens, List.append_assoc]; rfl) rfl nofun fun rest hrest => ?_
      simp [parsePredicate, parseItems_tokens]
  | isNull l negated =>
    refine readsBack_leaf (t := .is) hread (by rw [Pred.tokens]) rfl nofun fun rest hrest => ?_
    cases negated <;> rfl
  | conj ps ih =>
    intro n rest hrest hn
    cases ps with
    | nil =>
      obtain ⟨n, rfl⟩ : ∃ k, n = k + 4 := ⟨n - 4, by omega⟩
      exact parseOr_of_not rfl hrest
    | cons p ps =>
      obtain ⟨hp, hps⟩ := List.forall_mem_cons.mp ih
      obtain ⟨hreadp, hreads⟩ := hread
      simp only [Pred.tokens, List.length_cons, List.length_append] at hn
      obtain ⟨n, rfl⟩ : ∃ k, n = k + 3 := ⟨n - 3, by omega⟩
      have hgroup := (hp hreadp).group (n := n + 1) (by omega) (Pred.tokensAll some .and ps ++ rest)
      have hothers := parseAnds_tokens (n := n + 1)
        (fun q hq => hps q hq (Pred.allReadable_iff.mp hreads q hq)) hrest (by omega)
      have hors := parseOrs_stop (n + 1) fun ts => hrest.ne (t := .or) nofun
      rw [List.cons_append] at hgroup
      simp only [Pred.tokens, List.cons_append, List.append_assoc, parseOr, parseAnd, hgroup, hothers, hors,
        Option.bind_eq_bind, Option.bind_some, joinDisj, Pred.collapse, Pred.collapseAll]
  | disj ps ih =>
    intro n rest hrest hn
    cases ps with
    | nil =>
      obtain ⟨n, rfl⟩ : ∃ k, n = k + 4 := ⟨n - 4, by omega⟩
      exact parseOr_of_not rfl hrest
    | cons p ps =>
      obtain ⟨hp, hps⟩ := List.forall_mem_cons.mp ih
      obtain ⟨hreadp, hreads⟩ := hread
      simp only [Pred.tokens, List.length_cons, List.length_append] at hn
      obtain ⟨n, rfl⟩ : ∃ k, n = k + 1 := ⟨n - 1, by omega⟩
      have hnext (ts : List (Token ω)) : Pred.tokensAll some .or ps ++ rest ≠ .and :: ts := by
        cases ps with
        | nil => exact hrest.ne nofun
        | cons q qs => exact fun h => absurd (List.cons.inj h).1 nofun
      have hmember := (hp hreadp).member (n := n) (by omega) hnext
      have hothers := parseOrs_tokens (n := n)
        (fun q hq => hps q hq (Pred.allReadable_iff.mp hreads q hq)) hrest (by omega)
      rw [List.cons_append] at hmember
      simp only [Pred.tokens, List.cons_append, List.append_assoc, parseOr, hmember, hothers,
        Option.bind_eq_bind, Option.bind_some, Pred.collapse, Pred.collapseAll]
  | neg p ih =>
    intro n rest hrest hn
    simp only [Pred.tokens, List.length_cons, List.length_append] at hn
    obtain ⟨n, rfl⟩ : ∃ k, n = k + 3 := ⟨n - 3, by omega⟩
    have hgroup := (ih hread).group (n := n) (by omega) rest
    refine parseOr_of_not ?_ hrest
    rw [List.cons_append] at hgroup
    simp only [Pred.tokens, List.cons_append, List.append_assoc, List.nil_append, parseNot, hgroup, Option.map_some,
      Pred.collapse]
  | exists_ negated t ps ih => exact hread.elim
  | raw t => exact hread.elim

/-- The condition of the tokens of a readable condition. -/
theorem parse_tokens {known : ω → Prop} {p : Pred ω Nat} (hread : p.Readable known) : parse (p.tokens some) = some p.collapse := by
  have hback := parseOr_tokens hread (5 * (p.tokens some).length + 5) [] nofun (Nat.le_refl _)
  rw [List.append_nil] at hback
  rw [parse, hback]

end RoundTrip

end Sql
