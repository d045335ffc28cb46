import Djangors.Theorems.Keyset

/-! # Excluded rows

`exclude` selects the rows that a filter is false of. The rows that it is neither true nor false of, because a column is
NULL, are selected by neither call. -/

namespace Djangors.Orm
open Db Sql

/-- Filtering by a field without a lookup adds one comparison, if the model has the field. -/
theorem filter_field {m : ModelMeta} {field : String} (hfield : splitFieldLookup field = (field, "eq")) (qs : QuerySet m) (v : Value) :
    qs.filter (.and [⟨field, v⟩]) = (checkFieldMeta m field).map fun name =>
      { qs with filters := qs.filters ++ [.and [.compare name .eq v]] } := by
  have hresolve : resolveExpr m (.and [⟨field, v⟩]) =
      (checkFieldMeta m field).map fun name => .and [.compare name .eq v] := by
    simp only [resolveExpr, resolveExprWithMeta, List.mapM_cons, List.mapM_nil, resolveCompare, hfield]
    cases checkFieldMeta m field <;> rfl
  rw [QuerySet.filter, hresolve]
  cases checkFieldMeta m field <;> rfl

/-- A field or a relation of the model names a column. -/
theorem column_of_known {m : ModelMeta} {field name : String} (h : checkFieldMeta m field = .ok name) :
    fieldToCol m field = .column (fieldToCol m field).name := by
  rw [fieldToCol]
  cases hfield : m.field? field with
  | some f => rfl
  | none =>
    cases hrelation : m.relation? field with
    | some r => rfl
    | none =>
      rw [checkFieldMeta] at h
      split at h
      · rename_i hknown
        simp only [Bool.or_eq_true, List.any_eq_true] at hknown
        rcases hknown with ⟨f, hf, hname⟩ | ⟨r, hr, hname⟩
        · exact absurd hname (List.find?_eq_none.mp hfield f hf)
        · exact absurd hname (List.find?_eq_none.mp hrelation r hr)
      · cases h

section Selected
variable [Fmt] {m : ModelMeta} (S : Server) (db : Tables Cell)

/-- The truth value of a filter at a row. -/
def Expr.truth (e : Expr) (m : ModelMeta) (r : Row Cell) : Option Bool :=
  let out := compileExprSql S.dialect m.tableName none (fieldToCol m) e ⟨[], 1⟩
  ((out.1.map (bindAt (out.2.values.map Value.toBind))).map cellAt).eval S.interp db [⟨m.tableName, r⟩]

/-- Whether a query set selects a row: its filters are true of it, and so is its search condition. -/
def QuerySet.selected (qs : QuerySet m) (r : Row Cell) : Bool :=
  qs.keeps S db r && qs.searchCondition.all fun sc => S.interp.raw sc [⟨m.tableName, r⟩] == some true

theorem Expr.truth_not (e : Expr) (r : Row Cell) : (Expr.not e).truth S db m r = (e.truth S db m r).map (!·) := rfl

theorem keeps_concat (qs : QuerySet m) (e : Expr) (r : Row Cell) :
    QuerySet.keeps S db ({ qs with filters := qs.filters ++ [e] } : QuerySet m) r =
      (qs.keeps S db r && e.truth S db m r == some true) := by
  rw [QuerySet.keeps, QuerySet.boundFilters_append, List.all_append, ← QuerySet.keeps]
  congr 1
  exact Bool.and_true _

/-- One more filter selects among the selected rows. -/
theorem selected_concat (qs : QuerySet m) (e : Expr) (r : Row Cell) :
    QuerySet.selected S db ({ qs with filters := qs.filters ++ [e] } : QuerySet m) r =
      (qs.selected S db r && e.truth S db m r == some true) := by
  rw [QuerySet.selected, QuerySet.selected, keeps_concat, Bool.and_right_comm]

variable {S db} {qs : QuerySet m}

theorem selects_eq_selected (h : ∀ text, (qs.select S.dialect).bound ≠ .dangling text) (r : Row Cell) :
    S.selects db m.tableName (qs.select S.dialect).bound r = qs.selected S db r := by
  rw [qs.select_bound] at h ⊢
  rw [QuerySet.selected]
  cases hsearch : qs.searchCondition with
  | none =>
    rw [Option.all_none, Bool.and_true]
    exact selects_ofFilters S db _ _ r
  | some sc =>
    rw [hsearch, Where.withSearch] at h
    rw [Where.withSearch]
    split
    · rename_i hdangling
      rw [if_pos hdangling] at h
      exact absurd rfl (h sc)
    · rw [Server.selects, Pred.map, Pred.mapAll_eq_map, Pred.holds, Bool.eq_iff_iff, beq_iff_eq, Pred.eval,
        Pred.evalConj_eq_true, List.forall_mem_map, List.forall_mem_append, List.forall_mem_singleton, Bool.and_eq_true,
        QuerySet.keeps, List.all_eq_true, Option.all_some, beq_iff_eq]
      simp only [Pred.holds, beq_iff_eq]
      rfl

/-- Without a window, the rows fetched are the selected ones, in some order. -/
theorem fetch_selected {rows : List (Row Cell)} (h : S.fetch db (qs.select S.dialect) = .ok rows)
    (hlimit : qs.limit = none) (hoffset : qs.offset = none) : rows.Perm ((db m.tableName).filter (qs.selected S db)) := by
  have hbound : ∀ text, (qs.select S.dialect).bound ≠ .dangling text := by
    intro text hdangling
    rw [Server.fetch, hdangling] at h
    cases h
  have hperm := Server.fetch_perm hlimit hoffset h
  have hrows : (db m.tableName).filter (S.selects db m.tableName (qs.select S.dialect).bound) =
      (db m.tableName).filter (qs.selected S db) := List.filter_congr fun r _ => selects_eq_selected hbound r
  exact hrows ▸ hperm

end Selected

/-- Without a window, the excluded rows are the others exactly when the filter is true or false of every row selected
    before. -/
theorem exclude_complements_iff [Fmt] {m : ModelMeta} {S : Server} {db : Tables Cell} {qs filtered excluded : QuerySet m}
    {u : UnresolvedExpr} {e : Expr} (hresolve : resolveExpr m u = .ok e) (hlimit : qs.limit = none)
    (hoffset : qs.offset = none) (hfilter : qs.filter u = .ok filtered) (hexclude : qs.exclude u = .ok excluded)
    {all kept others : List (Row Cell)} (hall : S.fetch db (qs.select S.dialect) = .ok all)
    (hkept : S.fetch db (filtered.select S.dialect) = .ok kept)
    (hothers : S.fetch db (excluded.select S.dialect) = .ok others) :
    others.Perm (all.filter (· ∉ kept)) ↔
      ∀ r ∈ db m.tableName, qs.selected S db r = true → e.truth S db m r ≠ none := by
  rw [QuerySet.filter, hresolve] at hfilter
  rw [QuerySet.exclude, hresolve] at hexclude
  cases hfilter
  cases hexclude
  have hall := fetch_selected hall hlimit hoffset
  have hkept := fetch_selected hkept hlimit hoffset
  have hothers := fetch_selected hothers hlimit hoffset
  have hmem (r : Row Cell) (hr : r ∈ db m.tableName) : r ∈ kept ↔ qs.selected S db r = true ∧ e.truth S db m r = some true := by
    rw [hkept.mem_iff, List.mem_filter, and_iff_right hr, selected_concat, Bool.and_eq_true, beq_iff_eq]
  -- Both sides are filters of the table.
  have hrest : (all.filter (· ∉ kept)).Perm
      ((db m.tableName).filter fun r => qs.selected S db r && e.truth S db m r != some true) := by
    refine (hall.filter _).trans (List.Perm.of_eq ?_)
    rw [List.filter_filter]
    refine List.filter_congr fun r hr => ?_
    rw [Bool.eq_iff_iff]
    simp only [Bool.and_eq_true, decide_eq_true_eq, hmem r hr, bne_iff_ne]
    exact ⟨fun ⟨hnot, hsel⟩ => ⟨hsel, fun h => hnot ⟨hsel, h⟩⟩, fun ⟨hsel, hne⟩ => ⟨fun h => hne h.2, hsel⟩⟩
  have hfalse (r : Row Cell) : QuerySet.selected S db ({ qs with filters := qs.filters ++ [.not e] } : QuerySet m) r =
      (qs.selected S db r && e.truth S db m r == some false) := by
    rw [selected_concat, Expr.truth_not]
    rcases e.truth S db m r with _ | _ | _ <;> rfl
  constructor
  · intro hperm r hr hsel hnone
    have hin : r ∈ all.filter (· ∉ kept) := hrest.mem_iff.mpr (List.mem_filter.mpr ⟨hr, by rw [hsel, hnone]; rfl⟩)
    have hout := (List.mem_filter.mp (hothers.mem_iff.mp (hperm.mem_iff.mpr hin))).2
    rw [hfalse, hnone, Bool.and_eq_true] at hout
    cases hout.2
  · intro hknown
    refine (hothers.trans (List.Perm.of_eq (List.filter_congr fun r hr => ?_))).trans hrest.symm
    rw [hfalse]
    cases hsel : qs.selected S db r with
    | false => rfl
    | true =>
      have hne := hknown r hr hsel
      revert hne
      rcases e.truth S db m r with _ | _ | _ <;> simp

/-! ### Rows in neither set -/

/-- A post whose title may be NULL. -/
def draftMeta : ModelMeta where
  structName := "Draft"
  appLabel := "blog"
  tableName := "blog_draft"
  fields := [{ name := "id", columnName := "id", kind := .bigInt, primaryKey := true, auto := true },
    { name := "title", columnName := "title", kind := .char, nullable := true, maxLength := some 200 }]

/-- A server that compares no value with NULL. -/
def nullServer : Server where
  __ := plainServer
  interp :=
    { plainServer.interp with
      compare := fun op a b => if a = .null ∨ b = .null then none else plainServer.interp.compare op a b
      equal := fun a b => if a = .null ∨ b = .null then none else some (a == b) }

def drafts (titles : List Cell) : Tables Cell := fun t =>
  if t = "blog_draft" then titles.zipIdx.map fun (title, id) => [("id", .i64 id), ("title", title)] else []

def titleIs (text : String) : UnresolvedExpr := .and [⟨"title", .text text⟩]

/-- With titles everywhere, what is not filtered is excluded. -/
theorem titled_complement : List.Perm [[("id", .i64 1), ("title", Cell.text "b")]]
    (([[("id", .i64 0), ("title", .text "a")], [("id", .i64 1), ("title", .text "b")]] : List (Row Cell)).filter
      (· ∉ [[("id", .i64 0), ("title", Cell.text "a")]])) :=
  (@exclude_complements_iff .decimal draftMeta nullServer (drafts [.text "a", .text "b"]) {} _ _ (titleIs "a") _ rfl rfl rfl
    rfl rfl _ _ _ rfl rfl rfl).mpr (by decide)

/-- A draft without a title is neither filtered nor excluded. -/
theorem untitled_in_neither :
    ¬∀ (m : ModelMeta) (S : Server) (db : Tables Cell) (qs filtered excluded : QuerySet m) (u : UnresolvedExpr)
      (all kept others : List (Row Cell)), qs.filter u = .ok filtered → qs.exclude u = .ok excluded →
      S.fetch db (@QuerySet.select m .decimal qs S.dialect) = .ok all →
      S.fetch db (@QuerySet.select m .decimal filtered S.dialect) = .ok kept →
      S.fetch db (@QuerySet.select m .decimal excluded S.dialect) = .ok others →
      others.Perm (all.filter (· ∉ kept)) := by
  intro h
  have hperm := h draftMeta nullServer (drafts [.null]) {} _ _ (titleIs "a") [[("id", .i64 0), ("title", .null)]] [] []
    rfl rfl rfl rfl rfl
  have hlength := hperm.length_eq
  revert hlength
  decide

end Djangors.Orm
