import Djangors.Lib.Lists
import Djangors.Theorems.Keyset

/-! # Assignments and keys

What an `UPDATE` of literal values stores in a row, and which rows a query set keeps that compares fields with values. -/

namespace Sql
variable {κ : Type}

/-- The row with other values in some columns. -/
def Row.setAll (r : Row κ) (cells : List (String × κ)) : Row κ := cells.foldl (fun r (c, v) => r.set c v) r

theorem Row.lookup_set (r : Row κ) (c c' : String) (v : κ) :
    (r.set c v).lookup c' = if c' = c then (r.lookup c').map fun _ => v else r.lookup c' := by
  induction r with
  | nil => simp [Row.set]
  | cons entry r ih =>
    obtain ⟨d, w⟩ := entry
    have hset : Row.set ((d, w) :: r) c v = (if d = c then (d, v) else (d, w)) :: Row.set r c v := rfl
    have hkey : (if d = c then (d, v) else (d, w)) = (d, if d = c then v else w) := by split <;> rfl
    rw [hset, hkey, List.lookup_cons, List.lookup_cons, ih]
    by_cases hc : c' = d
    · subst hc
      by_cases hd : c' = c <;> simp [hd]
    · simp [beq_eq_false_iff_ne.mpr hc]

/-- Assigned columns have the values assigned, the others are kept. -/
theorem Row.lookup_setAll {cells : List (String × κ)} (hnodup : (cells.map (·.1)).Nodup) (r : Row κ) (c : String) :
    (r.setAll cells).lookup c = (r.lookup c).map fun old => (cells.lookup c).getD old := by
  induction cells generalizing r with
  | nil => simp [Row.setAll]
  | cons cell cells ih =>
    obtain ⟨d, v⟩ := cell
    obtain ⟨hd, hnodup⟩ := List.nodup_cons.mp hnodup
    have hstep : Row.setAll r ((d, v) :: cells) = Row.setAll (r.set d v) cells := rfl
    rw [hstep, ih hnodup, Row.lookup_set, List.lookup_cons]
    by_cases hc : c = d
    · subst hc
      have hnone : cells.lookup c = none := by
        rw [List.lookup_eq_none_iff]
        intro p hp
        exact bne_iff_ne.mpr fun heq => hd (List.mem_map.mpr ⟨p, hp, heq.symm⟩)
      cases r.lookup c <;> simp [hnone]
    · simp [hc, beq_eq_false_iff_ne.mpr hc]

/-- In a row that has each column once, assigning what is there changes nothing. -/
theorem Row.set_eq_self {r : Row κ} {c : String} {v : κ} (once : (r.map (·.1)).Nodup)
    (h : ∀ old, r.lookup c = some old → old = v) : r.set c v = r := by
  refine (List.map_congr_left fun entry hentry => ?_).trans (List.map_id r)
  obtain ⟨d, w⟩ := entry
  by_cases hd : d = c
  · subst hd
    rw [← h w (List.lookup_of_mem once hentry)]
    simp
  · simp [hd]

theorem Row.setAll_eq_self {r : Row κ} {cells : List (String × κ)} (once : (r.map (·.1)).Nodup)
    (h : ∀ cell ∈ cells, ∀ old, r.lookup cell.1 = some old → old = cell.2) : r.setAll cells = r := by
  induction cells with
  | nil => rfl
  | cons cell cells ih =>
    have hstep : Row.setAll r (cell :: cells) = Row.setAll (r.set cell.1 cell.2) cells := rfl
    rw [hstep, Row.set_eq_self once (h cell List.mem_cons_self)]
    exact ih fun cell hcell => h cell (List.mem_cons_of_mem _ hcell)

end Sql

namespace Djangors.Orm
open Db Sql

variable {m : ModelMeta}

/-! ### What is stored -/

/-- The assignment of a literal to each field. -/
def literals (values : List (String × Value)) : List (String × SetExpr) := values.map fun (name, value) => (name, .literal value)

/-- What is stored for a value of a field. -/
def storedCell (m : ModelMeta) (name : String) (value : Value) : Cell := (value.toBindAs (nullBindKindFor name m)).cell

/-- The columns of fields with what is stored for their values. -/
def storedCells (m : ModelMeta) (values : List (String × Value)) : List (String × Cell) :=
  values.map fun (name, value) => ((fieldToCol m name).name, storedCell m name value)

theorem foldlM_literals (S : Server) (t : String) (r r' : Row Cell) (values : List (String × Value))
    (before after : List BindValue) :
    (QuerySet.compileSets m (literals values) (before.length + 1)).1.foldlM (fun r' a =>
        (S.assigned (before ++ (QuerySet.compileSets m (literals values) (before.length + 1)).2 ++ after) t r a.rhs).map
          (Row.set r' a.lhs.name)) r' = some (r'.setAll (storedCells m values)) := by
  induction values generalizing r' before with
  | nil => rfl
  | cons value values ih =>
    obtain ⟨name, v⟩ := value
    have hsets : QuerySet.compileSets m (literals ((name, v) :: values)) (before.length + 1) =
        (⟨fieldToCol m name, .param (before.length + 1)⟩ ::
            (QuerySet.compileSets m (literals values) (before.length + 1 + 1)).1,
          v.toBindAs (nullBindKindFor name m) ::
            (QuerySet.compileSets m (literals values) (before.length + 1 + 1)).2) := rfl
    have hnext := ih (r'.set (fieldToCol m name).name (storedCell m name v)) (before ++ [v.toBindAs (nullBindKindFor name m)])
    rw [List.length_append, List.length_singleton] at hnext
    rw [hsets, List.foldlM_cons]
    simp only [Server.assigned, bindAt, Nat.add_sub_cancel, List.append_assoc, List.cons_append, List.nil_append,
      List.getElem?_append_right (Nat.le_refl _), Nat.sub_self, List.getElem?_cons_zero] at hnext ⊢
    exact hnext

/-- An `UPDATE` of literal values stores them. -/
theorem assignRow_literals [Fmt] {qs : QuerySet m} {d : Dialect} {values : List (String × Value)} {u : Update}
    (h : qs.update d (literals values) = .ok u) (S : Server) (r : Row Cell) :
    S.assignRow u r = some (r.setAll (storedCells m values)) := by
  obtain ⟨_, _, h⟩ := Except.bind_eq_ok.mp h
  cases h
  exact foldlM_literals S m.tableName r r values [] _

/-! ### Which rows are kept -/

/-- The filter that compares fields with values. -/
def equalTo (pairs : List (String × Value)) : Expr := .and (pairs.map fun (name, value) => .compare name .eq value)

section Keeps
variable [Fmt] (S : Server) (db : Tables Cell)

theorem compileAll_equal (d : Dialect) (outer : String) (pairs : List (String × Value)) (before after : List BindValue)
    (st : Params) (hst : st.idx = before.length + 1) :
    (compileAll d outer none (fieldToCol m) (pairs.map fun (name, value) => .compare name .eq value) st).1.map
        (Pred.map (bindAt (before ++ pairs.map (fun p => p.2.toBind) ++ after))) =
      pairs.map (fun p => .cmp (fieldToCol m p.1) .eq (.param (some p.2.toBind))) ∧
    (compileAll d outer none (fieldToCol m) (pairs.map fun (name, value) => .compare name .eq value) st).2 =
      st.extend (pairs.map (·.2)) := by
  induction pairs generalizing before st with
  | nil => exact ⟨rfl, by simp [compileAll, Params.extend]⟩
  | cons pair pairs ih =>
    obtain ⟨name, v⟩ := pair
    have hnext := ih (before ++ [v.toBind]) (st.push v) (by simp [Params.push, hst])
    have hcompare : compileExprSql d outer none (fieldToCol m) (.compare name .eq v) st =
        (.cmp (fieldToCol m name) .eq (.param st.idx), st.push v) := rfl
    simp only [List.map_cons, compileAll, hcompare]
    refine ⟨?_, ?_⟩
    · rw [List.append_assoc before, List.singleton_append] at hnext
      rw [hnext.1, Pred.map, Operand.map, hst]
      simp [bindAt]
    · rw [hnext.2]
      simp [Params.push, Params.extend, Nat.add_comm, Nat.add_left_comm]

/-- A query set that compares fields with values keeps of its rows those that are equal. -/
theorem keeps_equalTo (qs : QuerySet m) {pairs : List (String × Value)}
    (hcols : ∀ p ∈ pairs, ∃ c, fieldToCol m p.1 = .column c) (r : Row Cell) :
    QuerySet.keeps S db ({ qs with filters := qs.filters ++ [equalTo pairs] } : QuerySet m) r =
      (qs.keeps S db r && pairs.all fun p => compares S .eq (fieldToCol m p.1).name p.2.toBind.cell r) := by
  have hbound : QuerySet.boundFilters ({ filters := [equalTo pairs] } : QuerySet m) S.dialect =
      [.conj (pairs.map fun p => .cmp (fieldToCol m p.1) .eq (.param (some p.2.toBind)))] := by
    obtain ⟨h₁, h₂⟩ := compileAll_equal (m := m) S.dialect m.tableName pairs [] [] ⟨[], 1⟩ rfl
    have hvalues : ([] : List Value) ++ pairs.map (·.2) = pairs.map (·.2) := rfl
    simp only [QuerySet.boundFilters, QuerySet.compileFilters, equalTo, compileAll, compileExprSql, h₂, Params.extend,
      hvalues, List.map_cons, List.map_nil, Pred.map, Pred.mapAll_eq_map]
    rw [← h₁]
    simp [Function.comp_def]
  rw [QuerySet.keeps, QuerySet.boundFilters_append, List.all_append, ← QuerySet.keeps, hbound]
  congr 1
  rw [List.all_cons, List.all_nil, Bool.and_true, Bool.eq_iff_iff, Pred.holds, beq_iff_eq, Pred.map, Pred.mapAll_eq_map,
    List.map_map, Pred.eval, Pred.evalConj_eq_true, List.forall_mem_map, List.all_eq_true]
  refine forall₂_congr fun p hp => ?_
  obtain ⟨c, hc⟩ := hcols p hp
  rw [Function.comp_apply, hc]
  exact eval_compare S db .eq c m.tableName p.2.toBind.cell r

end Keeps

end Djangors.Orm
