import Djangors.Lib.Except
import Djangors.Orm.Semantics

/-! # Operators on expressions

`&` and `|` flatten what they are given. The lists that come out mean what the binary tree means, and resolving the names
keeps the meaning. -/

namespace Djangors.Orm
open Db Sql

/-! ### Names -/

theorem checkFieldMeta_name {m : ModelMeta} {field name : String} (h : checkFieldMeta m field = .ok name) : name = field := by
  rw [checkFieldMeta] at h
  split at h
  · exact (Except.ok.inj h).symm
  · cases h

theorem checkFieldColumnMeta_ok {m : ModelMeta} {field column : String} (h : checkFieldColumnMeta m field = .ok column) :
    column = fieldColumn m field := by
  rw [checkFieldColumnMeta] at h
  rw [fieldColumn]
  cases hfind : m.fields.find? fun f => f.name == field || f.columnName == field with
  | some f =>
    rw [hfind] at h
    exact (Except.ok.inj h).symm
  | none =>
    rw [hfind] at h
    cases hrelation : m.relation? field with
    | none =>
      rw [hrelation] at h
      cases h
    | some relation =>
      rw [hrelation] at h
      have hname : relation.fieldName = field := by simpa using List.find?_some hrelation
      exact (Except.ok.inj h).symm.trans hname

theorem resolveAll_ok {m : ModelMeta} {outer : Option ModelMeta} {us : List UnresolvedExpr} {es : List Expr} :
    resolveAll m outer us = .ok es ↔ List.Forall₂ (fun u e => resolveExprWithMeta m outer u = .ok e) us es := by
  induction us generalizing es with
  | nil => cases es <;> simp [resolveAll]
  | cons u us ih =>
    rw [resolveAll, Except.bind_eq_ok]
    constructor
    · rintro ⟨e, he, h⟩
      obtain ⟨es', hes, h⟩ := Except.bind_eq_ok.mp h
      cases h
      exact .cons he (ih.mp hes)
    · rintro (_ | ⟨he, hes⟩)
      exact ⟨_, he, Except.bind_eq_ok.mpr ⟨_, ih.mpr hes, rfl⟩⟩

/-! ### Expressions that resolve -/

section Resolves
variable (m : ModelMeta) (outer : Option ModelMeta)

def Resolves (u : UnresolvedExpr) : Prop := ∃ e, resolveExprWithMeta m outer u = .ok e

variable {m outer}

theorem resolveAll_isOk {us : List UnresolvedExpr} :
    (∃ es, resolveAll m outer us = .ok es) ↔ ∀ u ∈ us, Resolves m outer u := by
  constructor
  · rintro ⟨es, hes⟩ u hu
    induction resolveAll_ok.mp hes with
    | nil => cases hu
    | cons he hrest ih =>
      rcases List.mem_cons.mp hu with rfl | hu
      · exact ⟨_, he⟩
      · exact ih (resolveAll_ok.mpr hrest) hu
  · intro h
    induction us with
    | nil => exact ⟨[], rfl⟩
    | cons u us ih =>
      obtain ⟨e, he⟩ := h u (by simp)
      obtain ⟨es, hes⟩ := ih fun u hu => h u (by simp [hu])
      exact ⟨e :: es, resolveAll_ok.mpr (.cons he (resolveAll_ok.mp hes))⟩

theorem resolves_all {us : List UnresolvedExpr} : Resolves m outer (.all us) ↔ ∀ u ∈ us, Resolves m outer u := by
  rw [← resolveAll_isOk, Resolves, resolveExprWithMeta]
  constructor
  · rintro ⟨e, he⟩
    obtain ⟨es, hes, -⟩ := Except.bind_eq_ok.mp he
    exact ⟨es, hes⟩
  · rintro ⟨es, hes⟩
    exact ⟨_, Except.bind_eq_ok.mpr ⟨es, hes, rfl⟩⟩

theorem resolves_any {us : List UnresolvedExpr} : Resolves m outer (.any us) ↔ ∀ u ∈ us, Resolves m outer u := by
  rw [← resolveAll_isOk, Resolves, resolveExprWithMeta]
  constructor
  · rintro ⟨e, he⟩
    obtain ⟨es, hes, -⟩ := Except.bind_eq_ok.mp he
    exact ⟨es, hes⟩
  · rintro ⟨es, hes⟩
    exact ⟨_, Except.bind_eq_ok.mpr ⟨es, hes, rfl⟩⟩

theorem Resolves.bitand {l r : UnresolvedExpr} (hl : Resolves m outer l) (hr : Resolves m outer r) :
    Resolves m outer (l.bitand r) := by
  rw [UnresolvedExpr.bitand.eq_def]
  split
  · rw [resolves_all] at hl hr ⊢
    exact List.forall_mem_append.mpr ⟨hl, hr⟩
  · rw [resolves_all] at hl ⊢
    exact List.forall_mem_append.mpr ⟨hl, List.forall_mem_singleton.mpr hr⟩
  · rw [resolves_all] at hr ⊢
    exact List.forall_mem_cons.mpr ⟨hl, hr⟩
  · exact resolves_all.mpr (List.forall_mem_cons.mpr ⟨hl, List.forall_mem_singleton.mpr hr⟩)

theorem Resolves.bitor {l r : UnresolvedExpr} (hl : Resolves m outer l) (hr : Resolves m outer r) :
    Resolves m outer (l.bitor r) := by
  rw [UnresolvedExpr.bitor.eq_def]
  split
  · rw [resolves_any] at hl hr ⊢
    exact List.forall_mem_append.mpr ⟨hl, hr⟩
  · rw [resolves_any] at hl ⊢
    exact List.forall_mem_append.mpr ⟨hl, List.forall_mem_singleton.mpr hr⟩
  · rw [resolves_any] at hr ⊢
    exact List.forall_mem_cons.mpr ⟨hl, hr⟩
  · exact resolves_any.mpr (List.forall_mem_cons.mpr ⟨hl, List.forall_mem_singleton.mpr hr⟩)

/-- What is written over leaves that resolve resolves. -/
theorem Formula.resolves (w : Formula UnresolvedExpr) (h : ∀ leaf ∈ w.leaves, Resolves m outer leaf) :
    Resolves m outer w.unresolved := by
  rw [Formula.unresolved]
  induction w with
  | leaf e => exact h e (by simp [Formula.leaves])
  | and l r ihl ihr =>
    obtain ⟨hl, hr⟩ := List.forall_mem_append.mp h
    exact (ihl hl).bitand (ihr hr)
  | or l r ihl ihr =>
    obtain ⟨hl, hr⟩ := List.forall_mem_append.mp h
    exact (ihl hl).bitor (ihr hr)
  | not w ih =>
    obtain ⟨e, he⟩ := ih h
    exact ⟨.not e, by rw [Formula.fold, resolveExprWithMeta, he]; rfl⟩

end Resolves

section Meaning
variable [Fmt] (I : Interp SqlOp Cell) (d : Dialect) (db : Tables Cell) (outerTable : String) (env : List (Frame Cell))

/-! ### Flattening -/

section Resolved
variable (sub : Option String) (toCol : String → ColRef)

theorem Expr.conjMeaning_append (es es' : List Expr) :
    Expr.conjMeaning I d db outerTable sub toCol env (es ++ es') =
      and3 (Expr.conjMeaning I d db outerTable sub toCol env es) (Expr.conjMeaning I d db outerTable sub toCol env es') := by
  induction es with
  | nil => rw [List.nil_append, Expr.conjMeaning, true_and3]
  | cons e es ih => rw [List.cons_append, Expr.conjMeaning, Expr.conjMeaning, ih, and3_assoc]

theorem Expr.disjMeaning_append (es es' : List Expr) :
    Expr.disjMeaning I d db outerTable sub toCol env (es ++ es') =
      or3 (Expr.disjMeaning I d db outerTable sub toCol env es) (Expr.disjMeaning I d db outerTable sub toCol env es') := by
  induction es with
  | nil => rw [List.nil_append, Expr.disjMeaning, false_or3]
  | cons e es ih => rw [List.cons_append, Expr.disjMeaning, Expr.disjMeaning, ih, or3_assoc]

theorem Expr.conjMeaning_singleton (e : Expr) :
    Expr.conjMeaning I d db outerTable sub toCol env [e] = e.meaning I d db outerTable sub toCol env := by
  rw [Expr.conjMeaning, Expr.conjMeaning, and3_true]

theorem Expr.disjMeaning_singleton (e : Expr) :
    Expr.disjMeaning I d db outerTable sub toCol env [e] = e.meaning I d db outerTable sub toCol env := by
  rw [Expr.disjMeaning, Expr.disjMeaning, or3_false]

theorem Expr.meaning_bitand (l r : Expr) :
    (l.bitand r).meaning I d db outerTable sub toCol env =
      and3 (l.meaning I d db outerTable sub toCol env) (r.meaning I d db outerTable sub toCol env) := by
  rw [Expr.bitand.eq_def]
  split
  · simp only [Expr.meaning, Expr.conjMeaning_append]
  · simp only [Expr.meaning, Expr.conjMeaning_append, Expr.conjMeaning_singleton]
  · simp only [Expr.meaning, Expr.conjMeaning]
  · rw [Expr.meaning, Expr.conjMeaning, Expr.conjMeaning_singleton]

theorem Expr.meaning_bitor (l r : Expr) :
    (l.bitor r).meaning I d db outerTable sub toCol env =
      or3 (l.meaning I d db outerTable sub toCol env) (r.meaning I d db outerTable sub toCol env) := by
  rw [Expr.bitor.eq_def]
  split
  · simp only [Expr.meaning, Expr.disjMeaning_append]
  · simp only [Expr.meaning, Expr.disjMeaning_append, Expr.disjMeaning_singleton]
  · simp only [Expr.meaning, Expr.disjMeaning]
  · rw [Expr.meaning, Expr.disjMeaning, Expr.disjMeaning_singleton]

theorem meaning_expr (w : Formula Expr) :
    w.expr.meaning I d db outerTable sub toCol env = w.binaryExpr.meaning I d db outerTable sub toCol env := by
  rw [Formula.expr, Formula.binaryExpr]
  induction w with
  | leaf e => rfl
  | and l r ihl ihr =>
    rw [Formula.fold, Formula.fold, Expr.meaning_bitand, Expr.meaning, Expr.conjMeaning, Expr.conjMeaning_singleton, ihl, ihr]
  | or l r ihl ihr =>
    rw [Formula.fold, Formula.fold, Expr.meaning_bitor, Expr.meaning, Expr.disjMeaning, Expr.disjMeaning_singleton, ihl, ihr]
  | not w ih => rw [Formula.fold, Formula.fold, Expr.meaning, Expr.meaning, ih]

end Resolved

section Unresolved
variable (m : ModelMeta) (outer : Option ModelMeta) (sub : Option String) (toCol : String → ColRef)

theorem UnresolvedExpr.conjMeaning_append (es es' : List UnresolvedExpr) :
    UnresolvedExpr.conjMeaning I d db outerTable m outer sub toCol env (es ++ es') =
      and3 (UnresolvedExpr.conjMeaning I d db outerTable m outer sub toCol env es)
        (UnresolvedExpr.conjMeaning I d db outerTable m outer sub toCol env es') := by
  induction es with
  | nil => rw [List.nil_append, UnresolvedExpr.conjMeaning, true_and3]
  | cons e es ih => rw [List.cons_append, UnresolvedExpr.conjMeaning, UnresolvedExpr.conjMeaning, ih, and3_assoc]

theorem UnresolvedExpr.disjMeaning_append (es es' : List UnresolvedExpr) :
    UnresolvedExpr.disjMeaning I d db outerTable m outer sub toCol env (es ++ es') =
      or3 (UnresolvedExpr.disjMeaning I d db outerTable m outer sub toCol env es)
        (UnresolvedExpr.disjMeaning I d db outerTable m outer sub toCol env es') := by
  induction es with
  | nil => rw [List.nil_append, UnresolvedExpr.disjMeaning, false_or3]
  | cons e es ih => rw [List.cons_append, UnresolvedExpr.disjMeaning, UnresolvedExpr.disjMeaning, ih, or3_assoc]

theorem UnresolvedExpr.conjMeaning_singleton (e : UnresolvedExpr) :
    UnresolvedExpr.conjMeaning I d db outerTable m outer sub toCol env [e] =
      e.meaning I d db outerTable m outer sub toCol env := by
  rw [UnresolvedExpr.conjMeaning, UnresolvedExpr.conjMeaning, and3_true]

theorem UnresolvedExpr.disjMeaning_singleton (e : UnresolvedExpr) :
    UnresolvedExpr.disjMeaning I d db outerTable m outer sub toCol env [e] =
      e.meaning I d db outerTable m outer sub toCol env := by
  rw [UnresolvedExpr.disjMeaning, UnresolvedExpr.disjMeaning, or3_false]

theorem UnresolvedExpr.meaning_bitand (l r : UnresolvedExpr) :
    (l.bitand r).meaning I d db outerTable m outer sub toCol env =
      and3 (l.meaning I d db outerTable m outer sub toCol env) (r.meaning I d db outerTable m outer sub toCol env) := by
  rw [UnresolvedExpr.bitand.eq_def]
  split
  · simp only [UnresolvedExpr.meaning, UnresolvedExpr.conjMeaning_append]
  · simp only [UnresolvedExpr.meaning, UnresolvedExpr.conjMeaning_append, UnresolvedExpr.conjMeaning_singleton]
  · simp only [UnresolvedExpr.meaning, UnresolvedExpr.conjMeaning]
  · rw [UnresolvedExpr.meaning, UnresolvedExpr.conjMeaning, UnresolvedExpr.conjMeaning_singleton]

theorem UnresolvedExpr.meaning_bitor (l r : UnresolvedExpr) :
    (l.bitor r).meaning I d db outerTable m outer sub toCol env =
      or3 (l.meaning I d db outerTable m outer sub toCol env) (r.meaning I d db outerTable m outer sub toCol env) := by
  rw [UnresolvedExpr.bitor.eq_def]
  split
  · simp only [UnresolvedExpr.meaning, UnresolvedExpr.disjMeaning_append]
  · simp only [UnresolvedExpr.meaning, UnresolvedExpr.disjMeaning_append, UnresolvedExpr.disjMeaning_singleton]
  · simp only [UnresolvedExpr.meaning, UnresolvedExpr.disjMeaning]
  · rw [UnresolvedExpr.meaning, UnresolvedExpr.disjMeaning, UnresolvedExpr.disjMeaning_singleton]

theorem meaning_unresolved (w : Formula UnresolvedExpr) :
    w.unresolved.meaning I d db outerTable m outer sub toCol env =
      w.binaryUnresolved.meaning I d db outerTable m outer sub toCol env := by
  rw [Formula.unresolved, Formula.binaryUnresolved]
  induction w with
  | leaf e => rfl
  | and l r ihl ihr =>
    rw [Formula.fold, Formula.fold, UnresolvedExpr.meaning_bitand, UnresolvedExpr.meaning, UnresolvedExpr.conjMeaning,
      UnresolvedExpr.conjMeaning_singleton, ihl, ihr]
  | or l r ihl ihr =>
    rw [Formula.fold, Formula.fold, UnresolvedExpr.meaning_bitor, UnresolvedExpr.meaning, UnresolvedExpr.disjMeaning,
      UnresolvedExpr.disjMeaning_singleton, ihl, ihr]
  | not w ih => rw [Formula.fold, Formula.fold, UnresolvedExpr.meaning, UnresolvedExpr.meaning, ih]

end Unresolved
/-! ### Resolving -/

section Resolving
variable {m : ModelMeta} {outer : Option ModelMeta} {sub : Option String} {toCol : String → ColRef}

/-- A leaf is resolved comparison by comparison. -/
theorem conjMeaning_of_mapM {α : Type} {f : α → Except OrmError Expr} {g : α → Option Bool} {xs : List α} {es : List Expr}
    (hresolve : xs.mapM f = .ok es) (h : ∀ x e, f x = .ok e → e.meaning I d db outerTable sub toCol env = g x) :
    Expr.conjMeaning I d db outerTable sub toCol env es = conj3 (xs.map g) := by
  induction Except.mapM_eq_ok.mp hresolve with
  | nil => rfl
  | cons hx hxs ih =>
    rw [Expr.conjMeaning, h _ _ hx, ih (Except.mapM_eq_ok.mpr hxs)]
    rfl

theorem meaning_resolveCompare {comp : UnresolvedCompare} {e : Expr} (h : resolveCompare m comp = .ok e) :
    e.meaning I d db outerTable sub toCol env =
      compareMeaning I d env (toCol (splitFieldLookup comp.field).1) (suffixToOp (splitFieldLookup comp.field).2) comp.value := by
  rcases hsplit : splitFieldLookup comp.field with ⟨name, suffix⟩
  rw [resolveCompare, hsplit] at h
  obtain ⟨field, hfield, h⟩ := Except.bind_eq_ok.mp h
  cases h
  rw [Expr.meaning, checkFieldMeta_name hfield]

theorem meaning_resolveFieldCompare {comp : UnresolvedFieldCompare} {e : Expr} (h : resolveFieldCompare m comp = .ok e) :
    e.meaning I d db outerTable sub toCol env =
      columnsMeaning I d env (toCol (splitFieldLookup comp.left).1) (suffixToOp (splitFieldLookup comp.left).2)
        (toCol comp.right) := by
  rcases hsplit : splitFieldLookup comp.left with ⟨name, suffix⟩
  rw [resolveFieldCompare, hsplit] at h
  obtain ⟨left, hleft, h⟩ := Except.bind_eq_ok.mp h
  obtain ⟨right, hright, h⟩ := Except.bind_eq_ok.mp h
  cases h
  rw [Expr.meaning, checkFieldMeta_name hleft, checkFieldMeta_name hright]

theorem meaning_resolveOuterCompare {m' : ModelMeta} {comp : UnresolvedOuterCompare} {e : Expr}
    (h : resolveOuterCompare m m' comp = .ok e) :
    e.meaning I d db outerTable sub toCol env =
      columnsMeaning I d env (.qualified (sub.getD outerTable) (fieldColumn m (splitFieldLookup comp.field).1))
        (suffixToOp (splitFieldLookup comp.field).2) (.qualified outerTable (fieldColumn m' comp.outerField)) := by
  rcases hsplit : splitFieldLookup comp.field with ⟨name, suffix⟩
  rw [resolveOuterCompare, hsplit] at h
  obtain ⟨column, hcolumn, h⟩ := Except.bind_eq_ok.mp h
  obtain ⟨outerColumn, houter, h⟩ := Except.bind_eq_ok.mp h
  cases h
  rw [Expr.meaning, checkFieldColumnMeta_ok hcolumn, checkFieldColumnMeta_ok houter]

/-- What a list of nodes means is kept when each node keeps its meaning. -/
theorem lists_of_resolveAll {us : List UnresolvedExpr} {es : List Expr} (hresolve : resolveAll m outer us = .ok es)
    (h : ∀ u ∈ us, ∀ e, resolveExprWithMeta m outer u = .ok e →
      e.meaning I d db outerTable sub toCol env = u.meaning I d db outerTable m outer sub toCol env) :
    Expr.conjMeaning I d db outerTable sub toCol env es =
        UnresolvedExpr.conjMeaning I d db outerTable m outer sub toCol env us ∧
      Expr.disjMeaning I d db outerTable sub toCol env es =
        UnresolvedExpr.disjMeaning I d db outerTable m outer sub toCol env us := by
  induction resolveAll_ok.mp hresolve with
  | nil => exact ⟨rfl, rfl⟩
  | cons hu hus ih =>
    obtain ⟨hconj, hdisj⟩ := ih (resolveAll_ok.mpr hus) fun u hmem => h u (by simp [hmem])
    rw [Expr.conjMeaning, Expr.disjMeaning, UnresolvedExpr.conjMeaning, UnresolvedExpr.disjMeaning, hconj, hdisj,
      h _ (by simp) _ hu]
    exact ⟨rfl, rfl⟩

/-- Resolving the names keeps the meaning. -/
theorem resolveExprWithMeta_meaning {u : UnresolvedExpr} {e : Expr} (h : resolveExprWithMeta m outer u = .ok e) :
    e.meaning I d db outerTable sub toCol env = u.meaning I d db outerTable m outer sub toCol env := by
  induction u using UnresolvedExpr.ind generalizing m outer sub toCol env e with
  | and compares =>
    rw [resolveExprWithMeta] at h
    obtain ⟨es, hes, h⟩ := Except.bind_eq_ok.mp h
    cases h
    rw [Expr.meaning, UnresolvedExpr.meaning]
    exact conjMeaning_of_mapM I d db outerTable env hes fun _ _ => meaning_resolveCompare I d db outerTable env
  | andFields compares =>
    rw [resolveExprWithMeta] at h
    obtain ⟨es, hes, h⟩ := Except.bind_eq_ok.mp h
    cases h
    rw [Expr.meaning, UnresolvedExpr.meaning]
    exact conjMeaning_of_mapM I d db outerTable env hes fun _ _ => meaning_resolveFieldCompare I d db outerTable env
  | andOuter compares =>
    cases outer with
    | none =>
      rw [resolveExprWithMeta] at h
      cases h
    | some m' =>
      rw [resolveExprWithMeta] at h
      obtain ⟨es, hes, h⟩ := Except.bind_eq_ok.mp h
      cases h
      rw [Expr.meaning, UnresolvedExpr.meaning]
      exact conjMeaning_of_mapM I d db outerTable env hes fun _ _ => meaning_resolveOuterCompare I d db outerTable env
  | all us ih =>
    rw [resolveExprWithMeta] at h
    obtain ⟨es, hes, h⟩ := Except.bind_eq_ok.mp h
    cases h
    rw [Expr.meaning, UnresolvedExpr.meaning]
    exact (lists_of_resolveAll I d db outerTable env hes fun u hu e he => ih u hu env he).1
  | any us ih =>
    rw [resolveExprWithMeta] at h
    obtain ⟨es, hes, h⟩ := Except.bind_eq_ok.mp h
    cases h
    rw [Expr.meaning, UnresolvedExpr.meaning]
    exact (lists_of_resolveAll I d db outerTable env hes fun u hu e he => ih u hu env he).2
  | negate u ih =>
    rw [resolveExprWithMeta] at h
    obtain ⟨e', he, h⟩ := Except.bind_eq_ok.mp h
    cases h
    rw [Expr.meaning, UnresolvedExpr.meaning, ih env he]
  | exists_ negated subMeta us ih =>
    rw [resolveExprWithMeta] at h
    obtain ⟨es, hes, h⟩ := Except.bind_eq_ok.mp h
    cases h
    rw [Expr.meaning, UnresolvedExpr.meaning]
    have hrow : ∀ r, Expr.conjMeaning I d db outerTable (some subMeta.tableName) (.qualified subMeta.tableName)
        (⟨subMeta.tableName, r⟩ :: env) es = UnresolvedExpr.conjMeaning I d db outerTable subMeta (some m)
          (some subMeta.tableName) (.qualified subMeta.tableName) (⟨subMeta.tableName, r⟩ :: env) us := fun r =>
      (lists_of_resolveAll I d db outerTable _ hes fun u hu e he => ih u hu _ he).1
    simp only [hrow]

end Resolving

end Meaning
end Djangors.Orm
