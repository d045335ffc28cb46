import Djangors.Lib.SqlText
import Djangors.Theorems.Meaning

/-! # The texts of compiled conditions

The text of a compiled condition is read back with the precedence of SQL and compared with the expression
(`Faithful`). Reading gives the condition back (`parseCondition_condText`), so what a text means is what its condition
means, unless a dialect does not have the operator. -/

namespace Djangors.Orm
open Db Sql

/-! ### Reading -/

/-- The operators of a dialect. SQLite has neither `ILIKE` nor the operators of regular expressions. -/
def readOp (d : Dialect) : String → Option SqlOp
  | "=" => some .eq
  | "<>" => some .ne
  | "<" => some .lt
  | "<=" => some .lte
  | ">" => some .gt
  | ">=" => some .gte
  | "LIKE" => some .like
  | "ILIKE" => if d = .postgres then some .ilike else none
  | "~" => if d = .postgres then some .regex else none
  | "~*" => if d = .postgres then some .iregex else none
  | _ => none

/-- A dialect reads an operator. -/
def Knows (d : Dialect) (o : SqlOp) : Prop := readOp d o.text = some o

/-- Whether the placeholders of a dialect show their numbers. -/
def shown : Dialect → Nat → Option Nat
  | .postgres => some
  | .sqlite => fun _ => none

/-- The condition that a text is. Placeholders without a number are numbered from `k` on. -/
def parseCondition (d : Dialect) (k : Nat) (text : String) : Option Cond :=
  (lex (readOp d) .idle text.toList).bind fun ts => match d with
    | .postgres => parse ts
    | .sqlite => parse (number k ts)

section Texts
variable {d : Dialect}

/-- A word or a sign of the grammar. -/
theorem lexes_token {s : String} {cs : List Char} (hcs : s.toList = cs) {k : CharClass} (hk : k = .letter ∨ k = .sign)
    (hne : cs.isEmpty = false) (hclass : (cs.all fun c => classOf c == k) = true) {t : Token SqlOp}
    (ht : wordToken (readOp d) s = some t) : Lexes (readOp d) cs [t] := by
  subst hcs
  refine Lexes.word hk (List.isEmpty_eq_false_iff.mp hne) (fun c hc => ?_) ht
  exact eq_of_beq (List.all_eq_true.mp hclass c hc)

theorem lexes_op {o : SqlOp} (h : Knows d o) : Lexes (readOp d) o.text.toList [.op o] := by
  have hword : wordToken (readOp d) o.text = some (.op o) := by
    rw [Knows] at h
    cases o <;> simp [wordToken, SqlOp.text] at h ⊢ <;> exact h
  cases o with
  | like | ilike => exact lexes_token rfl (.inl rfl) rfl rfl hword
  | _ => exact lexes_token rfl (.inr rfl) rfl rfl hword

theorem lexes_colText {c : ColRef} (hc : c.Readable) : Lexes (readOp d) (colText c).toList c.tokens := by
  cases c with
  | bare s => exact hc.elim
  | column c =>
    have hname := @Lexes.quoted _ (readOp d) '"' (.inl rfl) c hc
    simpa [colText, ColRef.tokens] using hname
  | qualified t c =>
    have hname := (@Lexes.quoted _ (readOp d) '"' (.inl rfl) t hc.1).dot (Lexes.quoted (.inl rfl) hc.2)
    simpa [colText, ColRef.tokens] using hname

theorem lexes_placeholder (n : Nat) : Lexes (readOp d) (d.placeholder n).toList [.param (shown d n)] := by
  cases d with
  | postgres =>
    have hnumber := @Lexes.number _ (readOp .postgres) n
    simpa [Dialect.placeholder, shown] using hnumber
  | sqlite =>
    have hmark := @Lexes.anonymous _ (readOp .sqlite)
    simpa [Dialect.placeholder, shown] using hmark

theorem lexes_operandText {o : Operand Nat} (ho : o.Readable) :
    Lexes (readOp d) (operandText d o).toList (o.tokens (shown d)) := by
  cases o with
  | param n => exact lexes_placeholder n
  | column c => exact lexes_colText ho
  | pattern before after c =>
    have hcol := lexes_colText (d := d) ho.1
    have hwild : Lexes (readOp d) ['\'', '%', '\''] [.text "%"] := Lexes.quoted (.inr rfl) (s := "%") (by decide)
    have hconcat : Lexes (readOp d) ['|', '|'] [.concat] := lexes_token (s := "||") rfl (.inr rfl) rfl rfl rfl
    have hafter := hcol.blank (hconcat.blank hwild)
    cases before with
    | false =>
      cases after with
      | false => simpa [operandText, Operand.tokens] using hcol
      | true => simpa [operandText, Operand.tokens] using hafter
    | true =>
      cases after with
      | false => simpa [operandText, Operand.tokens] using hwild.blank (hconcat.blank hcol)
      | true => simpa [operandText, Operand.tokens] using hwild.blank (hconcat.blank hafter)

theorem lexes_items (n : Nat) (ns : List Nat) :
    Lexes (readOp d) (", ".intercalate ((n :: ns).map d.placeholder)).toList (.param (shown d n) :: itemTokens (shown d) ns) := by
  induction ns generalizing n with
  | nil => simpa [itemTokens] using lexes_placeholder (d := d) n
  | cons m ns ih =>
    have hitems := (lexes_placeholder (d := d) n).comma (ih m)
    simpa [itemTokens, String.intercalate_cons_cons] using hitems

/-- Members in parentheses with a word between them. -/
theorem lexes_members {word : String} {connective : Token SqlOp} (hword : Lexes (readOp d) word.toList [connective])
    {p : Cond} {ps : List Cond} (h : ∀ q ∈ p :: ps, Lexes (readOp d) (condText d q).toList (q.tokens (shown d))) :
    Lexes (readOp d) ((" " ++ word ++ " ").intercalate (condTexts d (p :: ps))).toList
      (.lparen :: p.tokens (shown d) ++ .rparen :: Pred.tokensAll (shown d) connective ps) := by
  induction ps generalizing p with
  | nil =>
    have hp := (h p (by simp)).paren
    simpa [condTexts, Pred.tokensAll] using hp
  | cons q ps ih =>
    have hp := (h p (by simp)).paren
    have hps := ih fun q' hq' => h q' (List.mem_cons_of_mem _ hq')
    have hall := hp.blank (hword.blank hps)
    simpa [condTexts, Pred.tokensAll, String.intercalate_cons_cons] using hall

/-- The text of a readable condition is cut into its tokens. -/
theorem lexes_condText {p : Cond} (hread : p.Readable (Knows d)) :
    Lexes (readOp d) (condText d p).toList (p.tokens (shown d)) := by
  induction p using Pred.ind with
  | cmp l o r =>
    obtain ⟨hl, ho, hr⟩ := hread
    have hcmp := (lexes_colText hl).blank ((lexes_op ho).blank (lexes_operandText hr))
    simpa [condText, Pred.tokens] using hcmp
  | inList l items =>
    obtain ⟨hl, hne⟩ := hread
    cases items with
    | nil => exact absurd rfl hne
    | cons n ns =>
      have hin : Lexes (readOp d) ['I', 'N'] [.in_] := lexes_token (s := "IN") rfl (.inl rfl) rfl rfl rfl
      have hlist := (lexes_colText hl).blank (hin.blank (lexes_items (d := d) n ns).paren)
      simpa [condText, Pred.tokens] using hlist
  | isNull l negated =>
    have his : Lexes (readOp d) ['I', 'S'] [.is] := lexes_token (s := "IS") rfl (.inl rfl) rfl rfl rfl
    have hnot : Lexes (readOp d) ['N', 'O', 'T'] [.not] := lexes_token (s := "NOT") rfl (.inl rfl) rfl rfl rfl
    have hnull : Lexes (readOp d) ['N', 'U', 'L', 'L'] [.null] := lexes_token (s := "NULL") rfl (.inl rfl) rfl rfl rfl
    cases negated with
    | false => simpa [condText, Pred.tokens] using (lexes_colText hread).blank (his.blank hnull)
    | true => simpa [condText, Pred.tokens] using (lexes_colText hread).blank (his.blank (hnot.blank hnull))
  | conj ps ih =>
    cases ps with
    | nil => exact lexes_token (s := "TRUE") rfl (.inl rfl) rfl rfl rfl
    | cons p ps =>
      have hand : Lexes (readOp d) "AND".toList [.and] := lexes_token rfl (.inl rfl) rfl rfl rfl
      exact lexes_members hand fun q hq => ih q hq (Pred.allReadable_iff.mp hread q hq)
  | disj ps ih =>
    cases ps with
    | nil => exact lexes_token (s := "FALSE") rfl (.inl rfl) rfl rfl rfl
    | cons p ps =>
      have hor : Lexes (readOp d) "OR".toList [.or] := lexes_token rfl (.inl rfl) rfl rfl rfl
      exact lexes_members hor fun q hq => ih q hq (Pred.allReadable_iff.mp hread q hq)
  | neg p ih =>
    have hnot : Lexes (readOp d) ['N', 'O', 'T'] [.not] := lexes_token (s := "NOT") rfl (.inl rfl) rfl rfl rfl
    simpa [condText, Pred.tokens] using hnot.blank (ih hread).paren
  | exists_ negated t ps ih => exact hread.elim
  | raw t => exact hread.elim

/-- The text of a readable condition gives the condition back. -/
theorem parseCondition_condText {p : Cond} (hread : p.Readable (Knows d)) {k : Nat}
    (hparams : p.params = List.range' k p.params.length) : parseCondition d k (condText d p) = some p.collapse := by
  have hlex := lexes_condText hread [] nofun
  have hnumber := number_tokens p hread hparams []
  simp only [List.append_nil] at hlex hnumber
  have hparse := parse_tokens hread
  rw [parseCondition, hlex]
  cases d with
  | postgres => simpa [lex, Mode.tokens, shown] using hparse
  | sqlite => simpa [lex, Mode.tokens, shown, hnumber, number] using hparse

end Texts

/-! ### Faithful texts -/

mutual

/-- The comparisons and subqueries of an expression. -/
def Expr.leaves : Expr → List Expr
  | .and es => Expr.leavesAll es
  | .or es => Expr.leavesAll es
  | .not e => e.leaves
  | e => [e]

def Expr.leavesAll : List Expr → List Expr
  | [] => []
  | e :: es => e.leaves ++ Expr.leavesAll es

end

mutual

/-- An expression and what it is built from. -/
def Expr.subtrees : Expr → List Expr
  | .and es => .and es :: Expr.subtreesAll es
  | .or es => .or es :: Expr.subtreesAll es
  | .not e => .not e :: e.subtrees
  | e => [e]

def Expr.subtreesAll : List Expr → List Expr
  | [] => []
  | e :: es => e.subtrees ++ Expr.subtreesAll es

end

mutual

/-- The values of an expression from left to right, with the wildcards of text lookups. -/
def Expr.boundValues [Fmt] (d : Dialect) : Expr → List Value
  | .compare _ op v => match op with
    | .in => inItems v
    | .isNull => []
    | op => [(compareParts d op v).2]
  | .and es => Expr.boundValuesAll d es
  | .or es => Expr.boundValuesAll d es
  | .not e => e.boundValues d
  | .compareField _ _ _ => []
  | .exists_ _ _ es => Expr.boundValuesAll d es
  | .outerCompare _ _ _ => []

def Expr.boundValuesAll [Fmt] (d : Dialect) : List Expr → List Value
  | [] => []
  | e :: es => e.boundValues d ++ Expr.boundValuesAll d es

end

/-- A field name stands for a column whose quotes enclose it. -/
def NamesColumn (m : ModelMeta) (field : String) : Prop := ∃ c, fieldToCol m field = .column c ∧ '"' ∉ c.toList

/-- A comparison of fields of a model. -/
def ComparesFields (m : ModelMeta) : Expr → Prop
  | .compare field _ _ => NamesColumn m field
  | .compareField left _ right => NamesColumn m left ∧ NamesColumn m right
  | _ => False

/-- SQLite has no regular expressions. -/
def Offers (d : Dialect) (op : CompareOp) : Prop := d = .sqlite → op ≠ .regex ∧ op ≠ .iRegex

/-- No comparison of columns with `isnull`, no search for the text of NULL, no operator that the dialect lacks. -/
def Clear (d : Dialect) : Expr → Prop
  | .compare _ op v => op.Searches v ∧ Offers d op
  | .compareField _ op _ => op ≠ .isNull ∧ Offers d op
  | _ => True

/-- From some parameters on, an expression pushes its values in order and takes a placeholder for each, and its text says
    what the expression says. -/
structure Faithful [Fmt] (m : ModelMeta) (d : Dialect) (st : Params) (e : Expr) : Prop where
  pushed : (compileExprSql d m.tableName none (fieldToCol m) e st).2 = st.extend (e.boundValues d)
  read : ∃ p, parseCondition d st.idx (condText d (compileExprSql d m.tableName none (fieldToCol m) e st).1) = some p ∧
    p.params = List.range' st.idx (e.boundValues d).length ∧
    ∀ I : Interp SqlOp Cell, LawfulInterp I → ∀ db env val, Carries val st.idx (e.boundValues d) →
      (p.map val).eval I db env = e.meaning I d db m.tableName none (fieldToCol m) env

/-! ### Subtrees -/

theorem Expr.mem_leavesAll {es : List Expr} {l : Expr} : l ∈ Expr.leavesAll es ↔ ∃ e ∈ es, l ∈ e.leaves := by
  induction es with
  | nil => simp [Expr.leavesAll]
  | cons e es ih => simp [Expr.leavesAll, ih]

theorem Expr.mem_subtreesAll {es : List Expr} {s : Expr} : s ∈ Expr.subtreesAll es ↔ ∃ e ∈ es, s ∈ e.subtrees := by
  induction es with
  | nil => simp [Expr.subtreesAll]
  | cons e es ih => simp [Expr.subtreesAll, ih]

theorem Expr.leaves_subset {e s l : Expr} (hs : s ∈ e.subtrees) (hl : l ∈ s.leaves) : l ∈ e.leaves := by
  induction e using Expr.ind with
  | and es ih | or es ih =>
    rw [Expr.subtrees, List.mem_cons, Expr.mem_subtreesAll] at hs
    rcases hs with rfl | ⟨e, he, hs⟩
    · exact hl
    · exact Expr.mem_leavesAll.mpr ⟨e, he, ih e he hs⟩
  | not e ih =>
    rw [Expr.subtrees, List.mem_cons] at hs
    rcases hs with rfl | hs
    · exact hl
    · exact ih hs
  | _ =>
    obtain rfl := List.mem_singleton.mp hs
    exact hl

theorem Expr.mem_subtrees_of_leaf {e l : Expr} (hl : l ∈ e.leaves) : l ∈ e.subtrees := by
  induction e using Expr.ind with
  | and es ih | or es ih =>
    obtain ⟨e, he, hl⟩ := Expr.mem_leavesAll.mp hl
    exact List.mem_cons_of_mem _ (Expr.mem_subtreesAll.mpr ⟨e, he, ih e he hl⟩)
  | not e ih => exact List.mem_cons_of_mem _ (ih hl)
  | _ => exact hl

/-! ### What is pushed -/

section Compile
variable [Fmt] {d : Dialect} {outer : String} {sub : Option String} {toCol : String → ColRef}

omit [Fmt] in
theorem Params.extend_nil (st : Params) : st.extend [] = st := by simp [Params.extend]

omit [Fmt] in
theorem Params.extend_extend (st : Params) (vs ws : List Value) : (st.extend vs).extend ws = st.extend (vs ++ ws) := by
  simp [Params.extend, Nat.add_assoc]

theorem compileAll_extend_of {es : List Expr}
    (h : ∀ e ∈ es, ∀ st, (compileExprSql d outer sub toCol e st).2 = st.extend (e.boundValues d)) (st : Params) :
    (compileAll d outer sub toCol es st).2 = st.extend (Expr.boundValuesAll d es) := by
  induction es generalizing st with
  | nil => exact st.extend_nil.symm
  | cons e es ih =>
    obtain ⟨he, hes⟩ := List.forall_mem_cons.mp h
    rw [compileAll, ih hes, he, Params.extend_extend, Expr.boundValuesAll]

/-- Compiling pushes the values of an expression from left to right. -/
theorem compileExprSql_extend (e : Expr) (sub : Option String) (toCol : String → ColRef) (st : Params) :
    (compileExprSql d outer sub toCol e st).2 = st.extend (e.boundValues d) := by
  induction e using Expr.ind generalizing sub toCol st with
  | compare f op v =>
    cases op with
    | «in» =>
      cases hitems : inItems v with
      | nil => simp only [compileExprSql, compileCompare, Expr.boundValues, hitems, Params.extend_nil]
      | cons w ws => simp only [compileExprSql, compileCompare, Expr.boundValues, hitems]
    | isNull => exact st.extend_nil.symm
    | _ => rfl
  | and es ih | or es ih | exists_ n t es ih => exact compileAll_extend_of (fun e he => ih e he _ _) st
  | not e ih => exact ih sub toCol st
  | compareField l op r | outerCompare f op g => exact st.extend_nil.symm

theorem compileExprSql_params (e : Expr) (st : Params) :
    (compileExprSql d outer sub toCol e st).1.params = List.range' st.idx (e.boundValues d).length := by
  obtain ⟨ws, hextend, hparams⟩ := compileExprSql_pushes d outer e sub toCol st
  rw [compileExprSql_extend] at hextend
  rw [hparams, List.append_cancel_left (congrArg Params.values hextend)]

/-! ### What is read -/

theorem compareParts_known {op : CompareOp} (hop : Offers d op) (hin : op ≠ .in) (hnull : op ≠ .isNull) (v : Value) :
    Knows d (compareParts d op v).1 := by
  cases d with
  | postgres => cases op <;> rfl
  | sqlite =>
    cases op with
    | regex => exact absurd rfl (hop rfl).1
    | iRegex => exact absurd rfl (hop rfl).2
    | «in» => exact absurd rfl hin
    | isNull => exact absurd rfl hnull
    | _ => rfl

theorem compileCompare_readable {col : ColRef} (hcol : col.Readable) {op : CompareOp} (hop : Offers d op) (v : Value)
    (st : Params) : (compileCompare d col op v st).1.Readable (Knows d) := by
  cases op with
  | «in» =>
    cases hitems : inItems v with
    | nil => simp only [compileCompare, hitems]; trivial
    | cons w ws => simp only [compileCompare, hitems]; exact ⟨hcol, List.cons_ne_nil _ _⟩
  | isNull => exact hcol
  | _ => exact ⟨hcol, compareParts_known hop (by simp) (by simp) v, trivial⟩

omit [Fmt] in
theorem compileColumns_readable {lhs rhs : ColRef} (hl : lhs.Readable) (hr : rhs.Readable) {op : CompareOp}
    (hop : Offers d op) : (compileColumns d lhs op rhs).Readable (Knows d) := by
  cases op with
  | regex | iRegex =>
    cases d with
    | postgres => exact ⟨hl, rfl, hr⟩
    | sqlite => first | exact absurd rfl (hop rfl).1 | exact absurd rfl (hop rfl).2
  | contains | iContains => cases d <;> exact ⟨hl, rfl, hr, .inl rfl⟩
  | startsWith => exact ⟨hl, rfl, hr, .inr rfl⟩
  | endsWith => exact ⟨hl, rfl, hr, .inl rfl⟩
  | iExact => cases d <;> exact ⟨hl, rfl, hr⟩
  | _ => exact ⟨hl, rfl, hr⟩

omit [Fmt] in
theorem NamesColumn.readable {m : ModelMeta} {field : String} (h : NamesColumn m field) : (fieldToCol m field).Readable := by
  obtain ⟨c, hc, hquote⟩ := h
  rw [hc]
  exact hquote

section Model
variable {m : ModelMeta}

theorem compileAll_readable_of {es : List Expr} (h : ∀ e ∈ es, ∀ st,
      (compileExprSql d outer sub (fieldToCol m) e st).1.Readable (Knows d)) (st : Params) :
    Pred.AllReadable (Knows d) (compileAll d outer sub (fieldToCol m) es st).1 := by
  induction es generalizing st with
  | nil => trivial
  | cons e es ih =>
    obtain ⟨he, hes⟩ := List.forall_mem_cons.mp h
    exact ⟨he st, ih hes _⟩

theorem compileExprSql_readable (e : Expr) (hnames : ∀ l ∈ e.leaves, ComparesFields m l)
    (hclear : ∀ l ∈ e.leaves, Clear d l) (st : Params) :
    (compileExprSql d outer sub (fieldToCol m) e st).1.Readable (Knows d) := by
  induction e using Expr.ind generalizing st with
  | compare f op v =>
    have hname : NamesColumn m f := hnames _ (List.mem_singleton_self _)
    exact compileCompare_readable hname.readable (hclear _ (List.mem_singleton_self _)).2 v st
  | compareField l op r =>
    have hname : NamesColumn m l ∧ NamesColumn m r := hnames _ (List.mem_singleton_self _)
    exact compileColumns_readable hname.1.readable hname.2.readable (hclear _ (List.mem_singleton_self _)).2
  | and es ih | or es ih =>
    refine compileAll_readable_of (fun e he st => ih e he (fun l hl => ?_) (fun l hl => ?_) st) st
    · exact hnames l (Expr.mem_leavesAll.mpr ⟨e, he, hl⟩)
    · exact hclear l (Expr.mem_leavesAll.mpr ⟨e, he, hl⟩)
  | not e ih => exact ih hnames hclear st
  | exists_ n t es ih => exact (hnames _ (List.mem_singleton_self _)).elim
  | outerCompare f op g => exact (hnames _ (List.mem_singleton_self _)).elim

omit [Fmt] in
theorem sound_of_clear (e : Expr) (hnames : ∀ l ∈ e.leaves, ComparesFields m l) (hclear : ∀ l ∈ e.leaves, Clear d l) :
    e.Sound := by
  induction e using Expr.ind with
  | compare f op v => exact (hclear _ (List.mem_singleton_self _)).1
  | compareField l op r => exact (hclear _ (List.mem_singleton_self _)).1
  | and es ih | or es ih =>
    refine Expr.allSound_iff.mpr fun e he => ih e he (fun l hl => ?_) (fun l hl => ?_)
    · exact hnames l (Expr.mem_leavesAll.mpr ⟨e, he, hl⟩)
    · exact hclear l (Expr.mem_leavesAll.mpr ⟨e, he, hl⟩)
  | not e ih => exact ih hnames hclear
  | exists_ n t es ih => exact (hnames _ (List.mem_singleton_self _)).elim
  | outerCompare f op g => exact (hnames _ (List.mem_singleton_self _)).elim

/-- The numbers of the placeholders decide what is bound, not the parameters before them. -/
theorem compileExprSql_meaning_at {I : Interp SqlOp Cell} (law : LawfulInterp I) {e : Expr} (h : e.Sound)
    {db : Tables Cell} (env : List (Frame Cell)) {st : Params} {val : Nat → Cell}
    (hval : Carries val st.idx (e.boundValues d)) :
    ((compileExprSql d outer sub toCol e st).1.map val).eval I db env = e.meaning I d db outer sub toCol env := by
  have hshift := compileExprSql_shift d outer st.values 0 e sub toCol ⟨[], st.idx⟩
  have hst : Params.shift st.values 0 ⟨[], st.idx⟩ = st := by simp [Params.shift]
  rw [hst] at hshift
  rw [hshift, shiftCond, Pred.map_map]
  refine compileExprSql_meaning law e h sub toCol env rfl ?_
  rw [compileExprSql_extend]
  exact hval

/-- The text of a clear expression is faithful. -/
theorem faithful_of_clear {e : Expr} (hnames : ∀ l ∈ e.leaves, ComparesFields m l) (hclear : ∀ l ∈ e.leaves, Clear d l)
    (st : Params) : Faithful m d st e where
  pushed := compileExprSql_extend e none (fieldToCol m) st
  read := by
    have hparams := @compileExprSql_params _ d m.tableName none (fieldToCol m) e st
    have hread := @compileExprSql_readable _ d m.tableName none m e hnames hclear st
    have hlength := congrArg List.length hparams
    rw [List.length_range'] at hlength
    refine ⟨_, parseCondition_condText hread (by rw [hlength]; exact hparams), ?_, fun I law db env val hval => ?_⟩
    · rw [params_collapse, hparams]
    · rw [eval_collapse]
      exact compileExprSql_meaning_at law (sound_of_clear e hnames hclear) env hval

/-! ### Leaves that are not faithful -/

/-- Comparisons of a server on which every two values compare alike. -/
def alike : Interp SqlOp Cell where
  compare _ a b := if a = .null ∨ b = .null then none else some true
  equal a b := if a = .null ∨ b = .null then none else some true
  isNull := (· == .null)
  pattern before after
    | .text text => .text ((if before then "%" else "") ++ text ++ if after then "%" else "")
    | _ => .null
  raw _ _ := none

omit [Fmt] in
theorem alike_lawful : LawfulInterp alike where
  equal_eq _ _ := rfl
  isNull_iff _ := beq_iff_eq
  compare_null _ _ := by constructor <;> simp [alike]
  pattern_null _ _ := rfl
  pattern_text _ _ _ := rfl

/-- A faithful text that is read back says what the expression says. -/
theorem Faithful.meaning {e : Expr} {st : Params} (h : Faithful m d st e)
    (hread : (compileExprSql d m.tableName none (fieldToCol m) e st).1.Readable (Knows d)) {val : Nat → Cell}
    (hval : Carries val st.idx (e.boundValues d)) (env : List (Frame Cell)) :
    ((compileExprSql d m.tableName none (fieldToCol m) e st).1.map val).eval alike (fun _ => []) env =
      e.meaning alike d (fun _ => []) m.tableName none (fieldToCol m) env := by
  have hparams := @compileExprSql_params _ d m.tableName none (fieldToCol m) e st
  have hlength := congrArg List.length hparams
  rw [List.length_range'] at hlength
  obtain ⟨p, hparse, -, hmeaning⟩ := h.read
  rw [parseCondition_condText hread (by rw [hlength]; exact hparams)] at hparse
  obtain rfl := Option.some.inj hparse
  rw [← eval_collapse]
  exact hmeaning alike alike_lawful _ env val hval

/-- A search for the text of NULL finds texts. -/
theorem searches_of_faithful {field : String} {op : CompareOp} {v : Value} {st : Params} (hname : NamesColumn m field)
    (h : Faithful m d st (.compare field op v)) : op.Searches v := by
  rintro htext rfl
  have hop : Offers d op := fun _ => by constructor <;> rintro rfl <;> cases htext
  obtain ⟨c, hc, hquote⟩ := hname
  have hread := @compileCompare_readable _ d (fieldToCol m field) (by rw [hc]; exact hquote) op hop .null st
  have hval : Carries (fun _ => (compareParts d op .null).2.toBind.cell) st.idx
      ((Expr.compare field op .null).boundValues d) := by
    intro i v hv
    cases op with
    | contains | iContains | startsWith | endsWith =>
      obtain ⟨rfl, rfl⟩ : i = 0 ∧ (compareParts d _ .null).2 = v := by
        cases i with
        | zero => exact ⟨rfl, Option.some.inj hv⟩
        | succ i => cases hv
      rfl
    | _ => cases htext
  have hmeaning := h.meaning hread hval [⟨m.tableName, [(c, .i64 1)]⟩]
  cases op with
  | contains | iContains | startsWith | endsWith =>
    simp [compileExprSql, compileCompare, Pred.map, Operand.map, Pred.eval, Operand.value, hc, ColRef.value, alike, compareParts,
      Value.toBind, BindValue.cell, Expr.meaning, compareMeaning, CompareOp.valueMeaning, CompareOp.meaning,
      CompareOp.operand] at hmeaning
  | _ => cases htext

omit [Fmt] in
/-- The text of a comparison with an operator that SQLite lacks is not read. -/
theorem parseCondition_unknown {l : ColRef} (hl : l.Readable) {o : SqlOp} (ho : o = .regex ∨ o = .iregex)
    (r : Operand Nat) (k : Nat) : parseCondition .sqlite k (condText .sqlite (.cmp l o r)) = none := by
  have hcol := lexes_colText (d := .sqlite) hl
  have hnone : lex (readOp .sqlite) .idle (condText .sqlite (.cmp l o r)).toList = none := by
    have hblank := fun word hne hsigns hword =>
      @lex_unknown _ _ _ _ hcol .sign (.inr rfl) word hne hsigns hword (operandText .sqlite r).toList
    rcases ho with rfl | rfl
    · have hunknown := hblank ['~'] nofun (List.forall_mem_singleton.mpr rfl) rfl
      simpa [condText, SqlOp.text] using hunknown
    · have hunknown := hblank ['~', '*'] nofun
        (List.forall_mem_cons.mpr ⟨rfl, List.forall_mem_singleton.mpr rfl⟩) rfl
      simpa [condText, SqlOp.text] using hunknown
  rw [parseCondition, hnone]
  rfl

/-- What two columns are compared with is no test for NULL. -/
theorem columns_of_faithful {left right : String} {op : CompareOp} {st : Params} (hl : NamesColumn m left)
    (hr : NamesColumn m right) (h : Faithful m d st (.compareField left op right)) : op ≠ .isNull := by
  rintro rfl
  have hop : Offers d .isNull := fun _ => ⟨nofun, nofun⟩
  have hread := compileColumns_readable (d := d) hl.readable hr.readable hop
  obtain ⟨l, hl, -⟩ := hl
  obtain ⟨r, hr, -⟩ := hr
  have hval : Carries (fun _ => .null) st.idx ((Expr.compareField left .isNull right).boundValues d) := nofun
  have hmeaning := h.meaning hread hval [⟨m.tableName, [(l, .i64 1), (r, .i64 1)]⟩]
  have hleft : [(l, Cell.i64 1), (r, .i64 1)].lookup l = some (.i64 1) := List.lookup_cons_self
  have hright : [(l, Cell.i64 1), (r, .i64 1)].lookup r = some (.i64 1) := by cases hb : r == l <;> simp [List.lookup_cons, hb]
  simp [compileExprSql, compileColumns, Pred.map, Operand.map, Pred.eval, Operand.value, hl, hr, ColRef.value, alike,
    Expr.meaning, columnsMeaning, CompareOp.meaning, hleft, hright] at hmeaning

theorem not_faithful_unknown {e : Expr} {st : Params} {l : ColRef} (hl : l.Readable) {o : SqlOp}
    (ho : o = .regex ∨ o = .iregex) {r : Operand Nat}
    (he : (compileExprSql .sqlite m.tableName none (fieldToCol m) e st).1 = .cmp l o r) : ¬Faithful m .sqlite st e := by
  intro h
  obtain ⟨p, hparse, -⟩ := h.read
  rw [he, parseCondition_unknown hl ho] at hparse
  cases hparse

theorem offers_of_faithful {field : String} {op : CompareOp} {v : Value} {st : Params} (hname : NamesColumn m field)
    (h : Faithful m d st (.compare field op v)) : Offers d op := by
  rintro rfl
  constructor
  · rintro rfl
    exact not_faithful_unknown hname.readable (.inl rfl) rfl h
  · rintro rfl
    exact not_faithful_unknown hname.readable (.inr rfl) rfl h

theorem offersColumns_of_faithful {left right : String} {op : CompareOp} {st : Params} (hname : NamesColumn m left)
    (h : Faithful m d st (.compareField left op right)) : Offers d op := by
  rintro rfl
  constructor
  · rintro rfl
    exact not_faithful_unknown hname.readable (.inl rfl) rfl h
  · rintro rfl
    exact not_faithful_unknown hname.readable (.inr rfl) rfl h

/-- A faithful comparison is clear. -/
theorem clear_of_faithful {l : Expr} (hname : ComparesFields m l) {st : Params} (h : Faithful m d st l) : Clear d l := by
  cases l with
  | compare field op v => exact ⟨searches_of_faithful hname h, offers_of_faithful hname h⟩
  | compareField left op right =>
    exact ⟨columns_of_faithful hname.1 hname.2 h, offersColumns_of_faithful hname.1 h⟩
  | _ => trivial

end Model

end Compile

/-- From any parameters on, the text of an expression over columns and of everything it is built from is faithful exactly
    when no comparison in it tests columns for NULL, searches for the text of NULL or uses an operator that the dialect
    lacks. -/
theorem condition_text_faithful_iff [Fmt] (m : ModelMeta) (d : Dialect) (st : Params) (e : Expr)
    (hnames : ∀ l ∈ e.leaves, ComparesFields m l) :
    (∀ s ∈ e.subtrees, Faithful m d st s) ↔ ∀ l ∈ e.leaves, Clear d l := by
  constructor
  · intro h l hl
    exact clear_of_faithful (hnames l hl) (h l (Expr.mem_subtrees_of_leaf hl))
  · intro h s hs
    refine faithful_of_clear (fun l hl => ?_) (fun l hl => ?_) st
    · exact hnames l (Expr.leaves_subset hs hl)
    · exact h l (Expr.leaves_subset hs hl)

/-! ### Columns that are tested for NULL -/

def articleMeta : ModelMeta where
  structName := "Article"
  appLabel := "blog"
  tableName := "blog_article"
  fields := [{ name := "title", columnName := "title", kind := .text },
    { name := "draft", columnName := "draft_title", kind := .text }]

theorem article_names : NamesColumn articleMeta "title" ∧ NamesColumn articleMeta "draft" :=
  ⟨⟨"title", rfl, by decide⟩, "draft_title", rfl, by decide⟩

def retitled : Expr :=
  .and [.not (.compareField "title" .eq "draft"),
    .or [.compare "title" .in (.list []), .compare "draft" .contains (.text "rust")]]

theorem retitled_faithful : @Faithful .decimal articleMeta .sqlite ⟨[.i64 7], 2⟩ retitled := by
  refine (@condition_text_faithful_iff .decimal articleMeta .sqlite ⟨[.i64 7], 2⟩ retitled ?_).mpr ?_ retitled ?_
  · simp [retitled, Expr.leaves, Expr.leavesAll, ComparesFields, article_names]
  · simp [retitled, Expr.leaves, Expr.leavesAll, Clear, Offers, CompareOp.Searches, CompareOp.isText]
  · simp [retitled, Expr.subtrees]

/-- `isnull` between columns compiles to `=`. -/
theorem columns_not_tested : ¬∀ (m : ModelMeta) (d : Dialect) (st : Params) (e : Expr),
    (∀ l ∈ e.leaves, ComparesFields m l) → @Faithful .decimal m d st e := by
  intro h
  have hnames : ∀ l ∈ (Expr.compareField "title" .isNull "draft").leaves, ComparesFields articleMeta l := by
    simp [Expr.leaves, ComparesFields, article_names]
  have hfaithful := h articleMeta .postgres ⟨[], 1⟩ _ hnames
  exact @columns_of_faithful .decimal _ _ _ _ _ _ article_names.1 article_names.2 hfaithful rfl

end Djangors.Orm
