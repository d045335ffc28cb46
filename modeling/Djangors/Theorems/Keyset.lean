import Djangors.Theorems.WriteScope

/-! # Rows behind a position

The filters of a query set are bound independently of each other. `Beyond` says which rows lie behind the position that
`after` is given. -/

namespace Djangors.Orm
open Db Sql

section Bound
variable [Fmt] {m : ModelMeta} (d : Dialect)

theorem compileAll_append (outer : String) (sub : Option String) (toCol : String → ColRef) (es es' : List Expr)
    (st : Params) :
    compileAll d outer sub toCol (es ++ es') st =
      ((compileAll d outer sub toCol es st).1 ++
          (compileAll d outer sub toCol es' (compileAll d outer sub toCol es st).2).1,
        (compileAll d outer sub toCol es' (compileAll d outer sub toCol es st).2).2) := by
  induction es generalizing st with
  | nil => rfl
  | cons e es ih =>
    simp only [List.cons_append, compileAll, ih]

/-- Filters are bound one behind the other. -/
theorem QuerySet.boundFilters_append (qs : QuerySet m) (es : List Expr) :
    QuerySet.boundFilters ({ qs with filters := qs.filters ++ es } : QuerySet m) d =
      qs.boundFilters d ++ QuerySet.boundFilters ({ filters := es } : QuerySet m) d := by
  -- The filters in front push the values `ws`, and the others are numbered from behind these.
  obtain ⟨ws, hst, hparams⟩ := compileAll_pushes d m.tableName qs.filters none (fieldToCol m) ⟨[], 1⟩
  have hshift := compileAll_shift d m.tableName ws 0 es none (fieldToCol m) ⟨[], 1 + ws.length⟩
  have hbehind : (compileAll d m.tableName none (fieldToCol m) qs.filters ⟨[], 1⟩).2 =
      Params.shift ws 0 ⟨[], 1 + ws.length⟩ := by
    rw [hst]
    simp [Params.extend, Params.shift]
  have hbind := compileAll_bind d m.tableName es none (fieldToCol m) (ws.map Value.toBind)
  rw [List.length_map] at hbind
  simp only [QuerySet.boundFilters, QuerySet.compileFilters]
  rw [compileAll_append, hbehind, hshift, ← hbind, List.map_append]
  congr 1
  · refine List.map_congr_left fun p hp => Pred.map_congr fun n hn => ?_
    have hmem : n ∈ List.range' 1 ws.length := hparams ▸ Pred.mem_paramsAll.mpr ⟨p, hp, hn⟩
    rw [List.mem_range'_1] at hmem
    simp only [Params.shift, List.map_append, bindAt, List.append_nil]
    exact List.getElem?_append_left (by rw [List.length_map]; omega)
  · rw [Pred.mapAll_eq_map, List.map_map]
    refine List.map_congr_left fun p _ => ?_
    simp only [Function.comp_apply, Pred.map_map, Params.shift, List.map_append, Nat.add_zero]

end Bound

/-! ### Rows -/

theorem or3_eq_true {a b : Option Bool} : or3 a b = some true ↔ a = some true ∨ b = some true := by
  rcases a with _ | _ | _ <;> rcases b with _ | _ | _ <;> simp [or3]

section Rows
variable {m : ModelMeta} (S : Server) (db : Tables Cell)

theorem selects_ofFilters (cs : List (Pred SqlOp (Option BindValue))) (t : String) (r : Row Cell) :
    S.selects db t (.ofFilters cs) r = cs.all fun c => (c.map cellAt).holds S.interp db t r := by
  cases cs with
  | nil => rfl
  | cons c cs =>
    rw [Bool.eq_iff_iff, Where.ofFilters, Server.selects, Pred.map, Pred.mapAll_eq_map, Pred.holds, beq_iff_eq, Pred.eval,
      Pred.evalConj_eq_true, List.forall_mem_map, List.all_eq_true]
    simp only [Pred.holds, beq_iff_eq]

/-- Whether a value of a column compares with another one. -/
def compares (op : SqlOp) (column : String) (other : Cell) (r : Row Cell) : Bool :=
  (r.lookup column).bind (S.interp.compare op · other) == some true

/-- Whether a row lies beyond a value and a key. -/
def Beyond (orderColumn pkColumn : String) (descending : Bool) (position : Value × Int) (r : Row Cell) : Bool :=
  let op : SqlOp := if descending then .lt else .gt
  compares S op orderColumn position.1.toBind.cell r ||
    compares S .eq orderColumn position.1.toBind.cell r && compares S op pkColumn (.i64 position.2) r

theorem eval_compare (op : SqlOp) (column t : String) (other : Cell) (r : Row Cell) :
    (Pred.cmp (.column column) op (.param other)).eval S.interp db [⟨t, r⟩] = some true ↔
      compares S op column other r = true := by
  rw [compares, beq_iff_eq, Pred.eval]
  cases hcell : r.lookup column <;> simp [ColRef.value, Operand.value, hcell]

variable [Fmt]

/-- Whether the filters of a query set hold of a row. -/
def QuerySet.keeps (qs : QuerySet m) (r : Row Cell) : Bool :=
  (qs.boundFilters S.dialect).all fun c => (c.map cellAt).holds S.interp db m.tableName r

/-- Without a search, the rows selected are those that the filters hold of. -/
theorem selects_eq_keeps (qs : QuerySet m) (h : qs.searchCondition = none) (r : Row Cell) :
    S.selects db m.tableName (qs.select S.dialect).bound r = qs.keeps S db r := by
  rw [qs.select_bound, h]
  exact selects_ofFilters S db _ _ r

/-- Without a search, a select reads a window of the rows that the filters hold of. -/
theorem fetch_eq {S : Server} {db : Tables Cell} {qs : QuerySet m} (h : qs.searchCondition = none) :
    S.fetch db (qs.select S.dialect) =
      S.limited qs.limit ((S.arrange (qs.orderSource true)
        ((db m.tableName).filter (qs.keeps S db))).drop (qs.offset.getD 0).toNat) := by
  have hbound : (qs.select S.dialect).bound = .ofFilters (qs.boundFilters S.dialect) := by rw [qs.select_bound, h]; rfl
  have hrows : (db m.tableName).filter (S.selects db m.tableName (qs.select S.dialect).bound) =
      (db m.tableName).filter (qs.keeps S db) := List.filter_congr fun r _ => selects_eq_keeps S db qs h r
  rw [Server.fetch]
  split
  · rename_i text hdangling
    exact absurd (hbound.symm.trans hdangling) (Where.ofFilters_ne_dangling _ text)
  · rw [← hrows]
    rfl

end Rows

end Djangors.Orm
