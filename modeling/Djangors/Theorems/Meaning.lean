import Djangors.Theorems.Exclude
import Djangors.Theorems.Operators

/-! # Compiled conditions and their meaning

A compiled condition with its values bound has the truth value that the expression has, except where two columns are
compared with `isnull` and where the text of NULL is searched for. -/

namespace Djangors.Orm
open Db Sql

/-- What SQL says of `IN`, NULL and a text between wildcards. -/
structure LawfulInterp (I : Interp SqlOp Cell) : Prop where
  equal_eq : ∀ a b, I.equal a b = I.compare .eq a b
  isNull_iff : ∀ a, I.isNull a = true ↔ a = .null
  compare_null : ∀ op a, I.compare op a .null = none ∧ I.compare op .null a = none
  pattern_null : ∀ before after, I.pattern before after .null = .null
  pattern_text : ∀ before after text, I.pattern before after (.text text) =
    .text ((if before then "%" else "") ++ text ++ if after then "%" else "")

/-- A text lookup does not search for NULL. -/
def CompareOp.Searches (op : CompareOp) (v : Value) : Prop := op.isText = true → v ≠ .null

mutual

/-- No leaf compares columns with `isnull` or searches for the text of NULL. -/
def Expr.Sound : Expr → Prop
  | .compare _ op v => op.Searches v
  | .and es => Expr.AllSound es
  | .or es => Expr.AllSound es
  | .not e => e.Sound
  | .compareField _ op _ => op ≠ .isNull
  | .exists_ _ _ es => Expr.AllSound es
  | .outerCompare _ op _ => op ≠ .isNull

def Expr.AllSound : List Expr → Prop
  | [] => True
  | e :: es => e.Sound ∧ Expr.AllSound es

end

theorem Expr.allSound_iff {es : List Expr} : Expr.AllSound es ↔ ∀ e ∈ es, e.Sound := by
  induction es with
  | nil => simp [Expr.AllSound]
  | cons e es ih => rw [Expr.AllSound, ih, List.forall_mem_cons]

/-! ### Placeholders -/

/-- Placeholder `start + i` takes the `i`-th value. -/
def Carries (val : Nat → Cell) (start : Nat) (vals : List Value) : Prop :=
  ∀ i v, vals[i]? = some v → val (start + i) = v.toBind.cell

/-- The next placeholder is the one of the next value. -/
def Params.Numbered (start : Nat) (st : Params) : Prop := st.idx = start + st.values.length

theorem Carries.initial {val : Nat → Cell} {start : Nat} {vals more : List Value} (h : Carries val start (vals ++ more)) :
    Carries val start vals := fun i v hv => h i v <| by
  rw [List.getElem?_append_left (List.getElem?_eq_some_iff.mp hv).1, hv]

theorem Pushes.carries {val : Nat → Cell} {start : Nat} {st st' : Params} {ps : List Nat} (h : Pushes st st' ps)
    (hval : Carries val start st'.values) : Carries val start st.values := by
  obtain ⟨ws, rfl, -⟩ := h
  exact hval.initial

theorem Pushes.numbered {start : Nat} {st st' : Params} {ps : List Nat} (h : Pushes st st' ps)
    (hst : st.Numbered start) : st'.Numbered start := by
  obtain ⟨ws, rfl, -⟩ := h
  rw [Params.Numbered, Params.extend, List.length_append, ← Nat.add_assoc, ← hst]

section Bound
variable {val : Nat → Cell} {start : Nat} {st : Params}

theorem Carries.pushed {v : Value} (h : Carries val start (st.push v).values) (hst : st.Numbered start) :
    val st.idx = v.toBind.cell := by
  rw [hst]
  exact h _ v (by simp [Params.push])

theorem Carries.extended {vs : List Value} (h : Carries val start (st.extend vs).values) (hst : st.Numbered start) :
    (List.range' st.idx vs.length).map val = vs.map fun v => v.toBind.cell := by
  refine List.ext_getElem (by simp) fun i hi _ => ?_
  rw [List.length_map, List.length_range'] at hi
  rw [List.getElem_map, List.getElem_map, List.getElem_range', hst, Nat.one_mul, Nat.add_assoc]
  exact h _ _ (by simp [Params.extend, hi])

end Bound

/-! ### Leaves -/

section Leaves
variable [Fmt] {I : Interp SqlOp Cell} {d : Dialect} (env : List (Frame Cell))

theorem operand_isNull (v : Value) : (CompareOp.isNull.operand v == .bool false) = isFalse v := by
  cases v with
  | bool b => cases b <;> rfl
  | _ => rfl

theorem operand_of_ne {op : CompareOp} {v : Value} (hv : v ≠ .null) :
    op.operand v = if op.isText then .text v.display else v.toBind.cell := by
  cases v with
  | null => exact absurd rfl hv
  | _ => rfl

theorem operand_bound {op : CompareOp} (v : Value) (h : op.isText = false) : op.operand v = v.toBind.cell := by
  by_cases hv : v = .null
  · subst hv
    rfl
  · rw [operand_of_ne hv, h]
    rfl

/-- Comparing with the bound value says what the operator says. -/
theorem compare_bound (law : LawfulInterp I) {op : CompareOp} {v : Value} (hin : op ≠ .in) (hnull : op ≠ .isNull)
    (hv : op.Searches v) (a : Cell) :
    I.compare (compareParts d op v).1 a (compareParts d op v).2.toBind.cell = op.valueMeaning I d a v := by
  have text (h : op.isText = true) (before after : Bool) : I.pattern before after (op.operand v) =
      .text ((if before then "%" else "") ++ v.display ++ if after then "%" else "") := by
    rw [operand_of_ne (hv h), h]
    exact law.pattern_text before after v.display
  have plain (h : op.isText = false) := operand_bound v h
  cases op with
  | «in» => exact absurd rfl hin
  | isNull => exact absurd rfl hnull
  | contains | iContains | startsWith | endsWith =>
    simp [CompareOp.valueMeaning, CompareOp.meaning, text rfl, compareParts, Value.toBind, BindValue.cell]
  | _ => simp only [CompareOp.valueMeaning, CompareOp.meaning, plain rfl, compareParts]

theorem compileCompare_meaning (law : LawfulInterp I) (db : Tables Cell) {val : Nat → Cell} {start : Nat} {st : Params}
    (col : ColRef) {op : CompareOp} {v : Value} (hv : op.Searches v) (hst : st.Numbered start)
    (hval : Carries val start (compileCompare d col op v st).2.values) :
    ((compileCompare d col op v st).1.map val).eval I db env = compareMeaning I d env col op v := by
  have hbound (hin : op ≠ .in) (hnull : op ≠ .isNull) := compare_bound (d := d) law hin hnull hv
  cases op with
  | «in» =>
    cases hitems : inItems v with
    | nil =>
      simp only [compileCompare, compareMeaning, hitems]
      rfl
    | cons w ws =>
      simp only [compileCompare, hitems] at hval ⊢
      have hlist := hval.extended hst
      rw [List.length_cons] at hlist
      simp only [Pred.map, Pred.eval, compareMeaning, hitems, CompareOp.valueMeaning, hlist, List.map_map]
      rfl
  | isNull =>
    simp only [compileCompare, Pred.map, Pred.eval, compareMeaning, CompareOp.valueMeaning, CompareOp.meaning,
      operand_isNull]
    rcases col.value env <;> rfl
  | _ =>
    have hlast := hval.pushed hst
    simp only [compileCompare, Pred.map, Operand.map, Pred.eval, Operand.value, hlast, Option.bind_some, compareMeaning]
    refine congrArg (Option.bind _) (funext fun a => ?_)
    exact hbound (by simp) (by simp) a

omit [Fmt] in
/-- Two columns compare as two values do, unless the operator is `isnull`. -/
theorem compileColumns_meaning (law : LawfulInterp I) (db : Tables Cell) (lhs rhs : ColRef) {op : CompareOp}
    (hop : op ≠ .isNull) (val : Nat → Cell) :
    ((compileColumns d lhs op rhs).map val).eval I db env = columnsMeaning I d env lhs op rhs := by
  cases op with
  | isNull => exact absurd rfl hop
  | «in» =>
    simp only [compileColumns, Pred.map, Operand.map, Pred.eval, Operand.value, columnsMeaning, CompareOp.meaning, law.equal_eq]
  | contains | iContains | startsWith | endsWith =>
    simp only [compileColumns, Pred.map, Operand.map, Pred.eval, Operand.value, columnsMeaning, CompareOp.meaning,
      Option.bind_map]
    rfl
  | _ => rfl

end Leaves

/-! ### Trees -/

section Trees
variable [Fmt] {I : Interp SqlOp Cell} {d : Dialect} {db : Tables Cell} {outer : String} {val : Nat → Cell} {start : Nat}

/-- The members of a list are compiled one after the other. -/
theorem compileAll_meaning_of {sub : Option String} {toCol : String → ColRef} {es : List Expr}
    (hes : ∀ e ∈ es, ∀ env st, st.Numbered start → Carries val start (compileExprSql d outer sub toCol e st).2.values →
      ((compileExprSql d outer sub toCol e st).1.map val).eval I db env = e.meaning I d db outer sub toCol env)
    (env : List (Frame Cell)) {st : Params} (hst : st.Numbered start)
    (hval : Carries val start (compileAll d outer sub toCol es st).2.values) :
    Pred.evalConj I db env (Pred.mapAll val (compileAll d outer sub toCol es st).1) =
        Expr.conjMeaning I d db outer sub toCol env es ∧
      Pred.evalDisj I db env (Pred.mapAll val (compileAll d outer sub toCol es st).1) =
        Expr.disjMeaning I d db outer sub toCol env es := by
  induction es generalizing st with
  | nil => exact ⟨rfl, rfl⟩
  | cons e es ih =>
    obtain ⟨he, hes⟩ := List.forall_mem_cons.mp hes
    have hpush := compileExprSql_pushes d outer e sub toCol st
    have hrest := compileAll_pushes d outer es sub toCol (compileExprSql d outer sub toCol e st).2
    have hfirst := he env st hst (hrest.carries hval)
    obtain ⟨hconj, hdisj⟩ := ih hes (hpush.numbered hst) hval
    simp only [compileAll, Pred.mapAll, Pred.evalConj, Pred.evalDisj, Expr.conjMeaning, Expr.disjMeaning, hfirst, hconj,
      hdisj, and_self]

/-- A compiled condition with its values says what the expression says. -/
theorem compileExprSql_meaning (law : LawfulInterp I) (e : Expr) (h : e.Sound) (sub : Option String)
    (toCol : String → ColRef) (env : List (Frame Cell)) {st : Params} (hst : st.Numbered start)
    (hval : Carries val start (compileExprSql d outer sub toCol e st).2.values) :
    ((compileExprSql d outer sub toCol e st).1.map val).eval I db env = e.meaning I d db outer sub toCol env := by
  induction e using Expr.ind generalizing sub toCol env st with
  | compare field op v => exact compileCompare_meaning env law db (toCol field) h hst hval
  | compareField l op r => exact compileColumns_meaning env law db (toCol l) (toCol r) h val
  | outerCompare f op g => exact compileColumns_meaning env law db _ _ h val
  | not e ih => exact congrArg (Option.map (!·)) (ih h sub toCol env hst hval)
  | and es ih =>
    have hes := Expr.allSound_iff.mp h
    exact (compileAll_meaning_of (fun e he env st => ih e he (hes e he) sub toCol env) env hst hval).1
  | or es ih =>
    have hes := Expr.allSound_iff.mp h
    exact (compileAll_meaning_of (fun e he env st => ih e he (hes e he) sub toCol env) env hst hval).2
  | exists_ negated t es ih =>
    have hes := Expr.allSound_iff.mp h
    have hrow (r : Row Cell) := (compileAll_meaning_of
      (fun e he env st => ih e he (hes e he) (some t) (.qualified t) env) (⟨t, r⟩ :: env) hst hval).1
    simp only [compileExprSql, Pred.map, Pred.eval, Expr.meaning, hrow]

/-- An expression as it is compiled, with its values bound. -/
def Expr.condition (e : Expr) (d : Dialect) (outer : String) (sub : Option String) (toCol : String → ColRef) :
    Pred SqlOp Cell :=
  let out := compileExprSql d outer sub toCol e ⟨[], 1⟩
  (out.1.map (bindAt (out.2.values.map Value.toBind))).map cellAt

omit [Fmt] in
theorem carries_bindAt (start : Nat) (vals : List Value) :
    Carries (fun n => cellAt (bindAt (vals.map Value.toBind) (n + 1 - start))) start vals := by
  intro i v hv
  have hindex : start + i + 1 - start - 1 = i := by omega
  dsimp only
  rw [bindAt, hindex, List.getElem?_map, hv]
  rfl

/-- A condition with its values bound says what the expression says. -/
theorem condition_meaning (law : LawfulInterp I) {e : Expr} (h : e.Sound) (sub : Option String) (toCol : String → ColRef)
    (env : List (Frame Cell)) : (e.condition d outer sub toCol).eval I db env = e.meaning I d db outer sub toCol env := by
  rw [Expr.condition, Pred.map_map]
  exact compileExprSql_meaning law e h sub toCol env rfl (carries_bindAt 1 _)

end Trees

end Djangors.Orm
