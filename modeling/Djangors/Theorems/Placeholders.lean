import Djangors.Orm.Server

/-! # Placeholders

Compiling a condition pushes its values in the order of its placeholders and numbers these through
(`compileExprSql_pushes`). So where the numbering starts does not matter to what is bound
(`compileAll_bind`): an `UPDATE` numbers its `WHERE` clause from behind its assignments. -/

namespace Djangors.Orm
open Db Sql

/-! ### What compiling pushes -/

/-- `ps` are the next placeholders from `st` on, and `st'` holds a value for each. -/
def Pushes (st st' : Params) (ps : List Nat) : Prop :=
  ∃ ws, st' = st.extend ws ∧ ps = List.range' st.idx ws.length

theorem Pushes.nil (st : Params) : Pushes st st [] := ⟨[], by simp [Params.extend], rfl⟩

theorem Pushes.append {st st₁ st₂ : Params} {ps qs : List Nat} (h₁ : Pushes st st₁ ps) (h₂ : Pushes st₁ st₂ qs) :
    Pushes st st₂ (ps ++ qs) := by
  obtain ⟨ws₁, rfl, rfl⟩ := h₁
  obtain ⟨ws₂, rfl, rfl⟩ := h₂
  refine ⟨ws₁ ++ ws₂, by simp [Params.extend, Nat.add_assoc], ?_⟩
  rw [List.length_append, ← List.range'_append_1]
  rfl

theorem Pushes.length {st st' : Params} {ps : List Nat} (h : Pushes st st' ps) :
    st'.values.length = st.values.length + ps.length := by
  obtain ⟨ws, rfl, rfl⟩ := h
  simp [Params.extend]

theorem compileColumns_params (d : Dialect) (l : ColRef) (op : CompareOp) (r : ColRef) :
    (compileColumns d l op r).params = [] := by
  cases op <;> rfl

section Push
variable [Fmt] (d : Dialect) (outer : String)

theorem compileCompare_pushes (col : ColRef) (op : CompareOp) (v : Value) (st : Params) :
    Pushes st (compileCompare d col op v st).2 (compileCompare d col op v st).1.params := by
  cases op with
  | «in» =>
    cases hv : inItems v with
    | nil =>
      simp only [compileCompare, hv]
      exact Pushes.nil st
    | cons w ws =>
      simp only [compileCompare, hv]
      exact ⟨w :: ws, rfl, rfl⟩
  | isNull => exact Pushes.nil st
  -- every other operator binds one value
  | _ => exact ⟨[_], rfl, rfl⟩

theorem compileAll_pushes_of {sub : Option String} {toCol : String → ColRef} {es : List Expr}
    (h : ∀ e ∈ es, ∀ st, Pushes st (compileExprSql d outer sub toCol e st).2
      (compileExprSql d outer sub toCol e st).1.params) (st : Params) :
    Pushes st (compileAll d outer sub toCol es st).2 (Pred.paramsAll (compileAll d outer sub toCol es st).1) := by
  induction es generalizing st with
  | nil => exact Pushes.nil st
  | cons e es ih => exact (h e (by simp) st).append (ih (fun e he => h e (by simp [he])) _)

/-- Compiling an expression numbers its placeholders in the order of the text, from the next free
    number on, and pushes a value for each. -/
theorem compileExprSql_pushes (e : Expr) (sub : Option String) (toCol : String → ColRef) (st : Params) :
    Pushes st (compileExprSql d outer sub toCol e st).2 (compileExprSql d outer sub toCol e st).1.params := by
  induction e using Expr.ind generalizing sub toCol st with
  | compare f op v => exact compileCompare_pushes d (toCol f) op v st
  | and es ih => exact compileAll_pushes_of d outer (fun e he => ih e he sub toCol) st
  | or es ih => exact compileAll_pushes_of d outer (fun e he => ih e he sub toCol) st
  | not e ih => exact ih sub toCol st
  | compareField l op r =>
    rw [compileExprSql, compileColumns_params]
    exact Pushes.nil st
  | exists_ n t es ih => exact compileAll_pushes_of d outer (fun e he => ih e he (some t) (.qualified t)) st
  | outerCompare f op g =>
    rw [compileExprSql, compileColumns_params]
    exact Pushes.nil st

theorem compileAll_pushes (es : List Expr) (sub : Option String) (toCol : String → ColRef) (st : Params) :
    Pushes st (compileAll d outer sub toCol es st).2 (Pred.paramsAll (compileAll d outer sub toCol es st).1) :=
  compileAll_pushes_of d outer (fun e _ => compileExprSql_pushes d outer e sub toCol) st

/-- The placeholders of a compiled condition are numbered in the order of its text. -/
theorem compileAll_params (es : List Expr) (sub : Option String) (toCol : String → ColRef) (start : Nat) :
    Pred.paramsAll (compileAll d outer sub toCol es ⟨[], start⟩).1 =
      List.range' start (compileAll d outer sub toCol es ⟨[], start⟩).2.values.length := by
  obtain ⟨ws, h₁, h₂⟩ := compileAll_pushes d outer es sub toCol ⟨[], start⟩
  rw [h₂, h₁]
  simp [Params.extend]

end Push

/-! ### Where the numbering starts -/

def Params.shift (vs : List Value) (k : Nat) (st : Params) : Params := ⟨vs ++ st.values, st.idx + k⟩

/-- A compiled condition and its parameters, with the numbering moved on by `k`. -/
def shiftCond (vs : List Value) (k : Nat) (out : Cond × Params) : Cond × Params :=
  (out.1.map (· + k), out.2.shift vs k)

theorem compileColumns_map (d : Dialect) (l : ColRef) (op : CompareOp) (r : ColRef) (f : Nat → Nat) :
    (compileColumns d l op r).map f = compileColumns d l op r := by
  cases op <;> rfl

theorem map_add_range' (s n k : Nat) : (List.range' s n).map (· + k) = List.range' (s + k) n := by
  rw [Nat.add_comm s k, ← List.map_add_range']
  simp [Nat.add_comm]

section Shift
variable [Fmt] (d : Dialect) (outer : String) (vs : List Value) (k : Nat)

theorem compileCompare_shift (col : ColRef) (op : CompareOp) (v : Value) (st : Params) :
    compileCompare d col op v (st.shift vs k) = shiftCond vs k (compileCompare d col op v st) := by
  have push (w : Value) : (st.shift vs k).push w = (st.push w).shift vs k := by
    simp [Params.push, Params.shift, Nat.add_right_comm]
  cases op with
  | «in» =>
    cases hv : inItems v with
    | nil => simp only [compileCompare, hv]; rfl
    | cons w ws =>
      simp only [compileCompare, hv, shiftCond, Pred.map, map_add_range']
      simp [Params.extend, Params.shift, Nat.add_right_comm]
  | isNull => rfl
  | _ => exact Prod.ext rfl (push _)

theorem compileAll_shift_of {sub : Option String} {toCol : String → ColRef} {es : List Expr}
    (h : ∀ e ∈ es, ∀ st, compileExprSql d outer sub toCol e (st.shift vs k) =
      shiftCond vs k (compileExprSql d outer sub toCol e st)) (st : Params) :
    compileAll d outer sub toCol es (st.shift vs k) =
      (Pred.mapAll (· + k) (compileAll d outer sub toCol es st).1, (compileAll d outer sub toCol es st).2.shift vs k) := by
  induction es generalizing st with
  | nil => rfl
  | cons e es ih =>
    simp only [compileAll, h e (by simp) st, shiftCond, ih (fun e he => h e (by simp [he]))]
    rfl

theorem compileExprSql_shift (e : Expr) (sub : Option String) (toCol : String → ColRef) (st : Params) :
    compileExprSql d outer sub toCol e (st.shift vs k) = shiftCond vs k (compileExprSql d outer sub toCol e st) := by
  induction e using Expr.ind generalizing sub toCol st with
  | compare f op v => exact compileCompare_shift d vs k (toCol f) op v st
  | and es ih => simp only [compileExprSql, compileAll_shift_of d outer vs k (fun e he => ih e he sub toCol)]; rfl
  | or es ih => simp only [compileExprSql, compileAll_shift_of d outer vs k (fun e he => ih e he sub toCol)]; rfl
  | not e ih => simp only [compileExprSql, ih]; rfl
  | compareField l op r => simp only [compileExprSql, shiftCond, compileColumns_map]
  | exists_ n t es ih =>
    simp only [compileExprSql, compileAll_shift_of d outer vs k (fun e he => ih e he (some t) (.qualified t))]
    rfl
  | outerCompare f op g => simp only [compileExprSql, shiftCond, compileColumns_map]

theorem compileAll_shift (es : List Expr) (sub : Option String) (toCol : String → ColRef) (st : Params) :
    compileAll d outer sub toCol es (st.shift vs k) =
      (Pred.mapAll (· + k) (compileAll d outer sub toCol es st).1, (compileAll d outer sub toCol es st).2.shift vs k) :=
  compileAll_shift_of d outer vs k (fun e _ => compileExprSql_shift d outer vs k e sub toCol) st

/-- Compiled from behind other bound values, the conditions get the same values. -/
theorem compileAll_bind (es : List Expr) (sub : Option String) (toCol : String → ColRef) (pre : List BindValue) :
    ((compileAll d outer sub toCol es ⟨[], 1 + pre.length⟩).1.map
        (Pred.map (bindAt (pre ++ (compileAll d outer sub toCol es ⟨[], 1 + pre.length⟩).2.values.map Value.toBind)))) =
      (compileAll d outer sub toCol es ⟨[], 1⟩).1.map
        (Pred.map (bindAt ((compileAll d outer sub toCol es ⟨[], 1⟩).2.values.map Value.toBind))) := by
  have shift := compileAll_shift d outer [] pre.length es sub toCol ⟨[], 1⟩
  rw [show Params.shift [] pre.length ⟨[], 1⟩ = ⟨[], 1 + pre.length⟩ from rfl] at shift
  rw [shift, Pred.mapAll_eq_map, List.map_map]
  refine List.map_congr_left fun p hp => ?_
  rw [Function.comp_apply, Pred.map_map]
  refine Pred.map_congr fun n hn => ?_
  -- the numbers start at 1, so `n + pre.length` points behind `pre`
  have pos : 1 ≤ n := by
    have mem := Pred.mem_paramsAll.mpr ⟨p, hp, hn⟩
    rw [compileAll_params] at mem
    exact (List.mem_range'_1.mp mem).1
  rw [bindAt, bindAt, show n + pre.length - 1 = pre.length + (n - 1) by omega, List.getElem?_append_right (by omega)]
  simp [Params.shift]

end Shift

end Djangors.Orm
