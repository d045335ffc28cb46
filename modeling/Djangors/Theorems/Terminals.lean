import Djangors.Lib.Except
import Djangors.Orm.Terminal
import Djangors.Theorems.Exclude

/-! # Terminal operations and `all`

`count` counts what the window is applied to and then applies the window to the count, `first`, `exists` and `get` replace
the limit, and `aggregate` drops the window. They all tell of the rows of `all` exactly when the window keeps every row. -/

namespace Djangors.Orm
open Db Sql

/-! ### Statements -/

section Statements
variable {m : ModelMeta}

/-- The text before the filters, as far as it asks for a `WHERE`. -/
def selectHead (m : ModelMeta) (selectList : String) : String := "SELECT " ++ selectList ++ " FROM \"" ++ m.tableName ++ "\""

theorem containsWhere_head (short : String) (h : short ∈ ["1", "COUNT(*)"]) :
    containsWhere (selectHead m short) = containsWhere (selectHead m "*") := by
  rcases List.mem_cons.mp h with rfl | h
  · simp [containsWhere, selectHead, List.isPrefixOf_cons_cons]
  · cases List.mem_singleton.mp h
    simp [containsWhere, selectHead, List.isPrefixOf_cons_cons]

theorem where_congr [Fmt] (qs : QuerySet m) {list list' : String} (order order' : Bool) (d : Dialect)
    (h : containsWhere (selectHead m list) = containsWhere (selectHead m list')) :
    (qs.compileSelectWithOrder list order d).where_ = (qs.compileSelectWithOrder list' order' d).where_ := by
  simp only [selectHead] at h
  simp only [QuerySet.compileSelectWithOrder, Where.withSearch, h]

end Statements

/-! ### Rows -/

namespace Server
variable {S : Server} {db : Tables Cell} {s : Select}

/-- The rows that a statement selects, before they are put in order. -/
def matched (S : Server) (db : Tables Cell) (s : Select) : List (Row Cell) :=
  (db s.table).filter (S.selects db s.table s.bound)

/-- `OFFSET` and `LIMIT`. -/
def window (S : Server) (s : Select) (rows : List (Row Cell)) : Except OrmError (List (Row Cell)) :=
  S.limited s.limit (rows.drop (s.offset.getD 0).toNat)

theorem fetch_of_bound (h : ∀ text, s.bound ≠ .dangling text) :
    S.fetch db s = S.window s (S.arrange s.order (S.matched db s)) := by
  rw [fetch]
  split
  · rename_i text hdangling
    exact absurd hdangling (h text)
  · rfl

theorem fetchAggregates_of_bound (h : ∀ text, s.bound ≠ .dangling text) (cells : List (Row Cell) → List Cell) :
    S.fetchAggregates db s cells =
      (S.window s [(cells (S.matched db s)).map fun c => ("", c)]).map (List.map fun row => row.map (·.2)) := by
  rw [fetchAggregates]
  split
  · rename_i text hdangling
    exact absurd hdangling (h text)
  · rfl

theorem fetch_bound {rows : List (Row Cell)} (h : S.fetch db s = .ok rows) (text : String) : s.bound ≠ .dangling text := by
  intro hdangling
  rw [fetch, hdangling] at h
  cases h

end Server

/-! ### Windows -/

/-- The window drops none of `total` rows, nor the one row of a count. -/
def QuerySet.Whole {m : ModelMeta} (qs : QuerySet m) (total : Nat) : Prop :=
  qs.offset.getD 0 ≤ 0 ∧ ∀ n, qs.limit = some n → n < 0 ∨ 0 < n ∧ total ≤ n

/-- What `LIMIT` keeps when the server accepts it. -/
def taken {α : Type} (limit : Option Int) (rows : List α) : List α :=
  match limit with
  | none => rows
  | some n => if n < 0 then rows else rows.take n.toNat

def QuerySet.windowed {m : ModelMeta} {α : Type} (qs : QuerySet m) (rows : List α) : List α :=
  taken qs.limit (rows.drop (qs.offset.getD 0).toNat)

section Windows
variable {S : Server} {limit : Option Int} {rows kept : List (Row Cell)} {m : ModelMeta} {qs : QuerySet m}

theorem limited_some (n : Nat) (rows : List (Row Cell)) : S.limited (some n) rows = .ok (rows.take n) := by
  rw [Server.limited, if_pos (Int.natCast_nonneg n), Int.toNat_natCast]

/-- Whether the server accepts a limit is not up to the rows. -/
theorem limited_ok (h : S.limited limit rows = .ok kept) (rows' : List (Row Cell)) :
    S.limited limit rows' = .ok (taken limit rows') := by
  cases limit with
  | none => rfl
  | some n =>
    rw [Server.limited] at h ⊢
    rw [taken]
    split at h
    · rename_i hn
      rw [if_pos hn, if_neg (Int.not_lt.mpr hn)]
    · rename_i hn
      rw [if_neg hn, if_pos (Int.not_le.mp hn)]
      cases hd : S.dialect with
      | postgres =>
        rw [hd] at h
        cases h
      | sqlite => rfl

theorem windowed_eq_of_whole {α : Type} {rows : List α} (h : qs.Whole rows.length) : qs.windowed rows = rows := by
  obtain ⟨hoffset, hlimit⟩ := h
  rw [QuerySet.windowed, Int.toNat_of_nonpos hoffset, List.drop_zero, taken.eq_def]
  cases hl : qs.limit with
  | none => rfl
  | some n =>
    dsimp only
    split
    · rfl
    · have hn := hlimit n hl
      exact List.take_of_length_le (by omega)

/-- The window is whole when it keeps the row of a count and all the rows. -/
theorem whole_iff {α β : Type} (row : β) (rows : List α) :
    qs.Whole rows.length ↔ qs.windowed [row] ≠ [] ∧ (qs.windowed rows).length = rows.length := by
  constructor
  · intro h
    refine ⟨?_, congrArg List.length (windowed_eq_of_whole h)⟩
    have hone : qs.Whole [row].length :=
      ⟨h.1, fun n hn => (h.2 n hn).imp_right fun hpos => ⟨hpos.1, by rw [List.length_singleton]; omega⟩⟩
    rw [windowed_eq_of_whole hone]
    exact List.cons_ne_nil _ _
  · rintro ⟨hrow, hrows⟩
    have hoffset : (qs.offset.getD 0).toNat = 0 := by
      by_contra hne
      rw [QuerySet.windowed, List.drop_of_length_le (by rw [List.length_singleton]; omega), taken.eq_def] at hrow
      split at hrow <;> simp at hrow
    rw [QuerySet.windowed, hoffset, List.drop_zero, taken.eq_def] at hrow hrows
    refine ⟨Int.toNat_eq_zero.mp hoffset, fun n hn => ?_⟩
    rw [hn] at hrow hrows
    dsimp only at hrow hrows
    by_cases hneg : n < 0
    · exact .inl hneg
    · rw [if_neg hneg] at hrow hrows
      rw [List.length_take] at hrows
      have hpos : n.toNat ≠ 0 := by
        intro hzero
        rw [hzero] at hrow
        exact hrow rfl
      exact .inr ⟨by omega, by omega⟩

theorem mem_windowed {α : Type} {rows : List α} {x : α} (h : x ∈ qs.windowed rows) : x ∈ rows := by
  rw [QuerySet.windowed, taken.eq_def] at h
  split at h
  · exact List.mem_of_mem_drop h
  · split at h
    · exact List.mem_of_mem_drop h
    · exact List.mem_of_mem_drop (List.mem_of_mem_take h)

end Windows

/-! ### Operations -/

section Operations
variable [Fmt] {m : ModelMeta} {S : Server} {db : Tables Cell} {qs : QuerySet m} {rows : List (Row Cell)}

variable (qs) in
/-- Another select list, order or window leaves the clause as it is. -/
theorem compile_bound (limit offset : Option Int) {list : String} (order : Bool) (d : Dialect)
    (h : containsWhere (selectHead m list) = containsWhere (selectHead m "*")) :
    (QuerySet.compileSelectWithOrder ({ qs with limit, offset } : QuerySet m) list order d).bound = (qs.select d).bound := by
  rw [Select.bound, where_congr _ order true d h]
  rfl

/-- Another select list, order or window leaves the rows that are selected as they are. -/
theorem fetch_compile (hrows : S.fetch db (qs.select S.dialect) = .ok rows) (limit offset : Option Int) {list : String}
    (order : Bool) (h : containsWhere (selectHead m list) = containsWhere (selectHead m "*")) :
    S.fetch db (QuerySet.compileSelectWithOrder ({ qs with limit, offset } : QuerySet m) list order S.dialect) =
      S.limited limit ((S.arrange (qs.orderSource order) (S.matched db (qs.select S.dialect))).drop (offset.getD 0).toNat) := by
  have hbound := compile_bound qs limit offset order S.dialect h
  rw [Server.fetch_of_bound (by rw [hbound]; exact Server.fetch_bound hrows), Server.window, Server.matched, Server.matched,
    hbound]
  rfl

theorem fetchAggregates_compile (hrows : S.fetch db (qs.select S.dialect) = .ok rows) (limit offset : Option Int)
    {list : String} (h : containsWhere (selectHead m list) = containsWhere (selectHead m "*"))
    (cells : List (Row Cell) → List Cell) :
    S.fetchAggregates db (QuerySet.compileSelectWithOrder ({ qs with limit, offset } : QuerySet m) list false S.dialect)
        cells =
      (S.limited limit ([(cells (S.matched db (qs.select S.dialect))).map fun c => ("", c)].drop (offset.getD 0).toNat)).map
        (List.map fun row => row.map (·.2)) := by
  have hbound := compile_bound qs limit offset false S.dialect h
  rw [Server.fetchAggregates_of_bound (by rw [hbound]; exact Server.fetch_bound hrows), Server.window, Server.matched,
    Server.matched, hbound]
  rfl

/-- The rows of `all` are a window of the rows selected. -/
theorem fetch_windowed (hrows : S.fetch db (qs.select S.dialect) = .ok rows) :
    rows = qs.windowed (S.arrange (qs.orderSource true) (S.matched db (qs.select S.dialect))) := by
  have heq := hrows.symm.trans (fetch_compile hrows qs.limit qs.offset true rfl)
  exact Except.ok.inj (heq.trans (limited_ok heq.symm _))

/-- The row that a count returns. -/
def countRow (n : Nat) : Row Cell := [("", .i64 n)]

variable {G : TryGet}

omit [Fmt] in
theorem tryI64_i64 (lawful : LawfulGet G) (n : Int) : G.tryI64 (.i64 n) = .ok (some n) := by
  rw [TryGet.tryI64, lawful.i64]
  rfl

theorem count_ok_iff (lawful : LawfulGet G) (hlock : qs.forUpdate = none)
    (hrows : S.fetch db (qs.select S.dialect) = .ok rows) (n : Int) :
    qs.count S db G = .ok n ↔
      qs.windowed [countRow (S.matched db (qs.select S.dialect)).length] ≠ [] ∧
        n = (S.matched db (qs.select S.dialect)).length := by
  have hfetch := fetchAggregates_compile hrows qs.limit qs.offset (containsWhere_head "COUNT(*)" (by simp))
    fun rows => [.i64 rows.length]
  have hwindow := limited_ok (fetch_compile hrows qs.limit qs.offset true (Eq.refl (containsWhere (selectHead m "*"))) ▸ hrows)
  have hcount : qs.count S db G = (do
      let row ← Server.fetchOne ((qs.windowed [countRow (S.matched db (qs.select S.dialect)).length]).map fun row =>
        row.map (·.2))
      return (← G.tryI64 (row.head?.getD .null)).getD 0) := by
    rw [QuerySet.count, hlock]
    exact congrArg (· >>= _) (hfetch.trans (congrArg (Except.map _) (hwindow _)))
  rw [hcount]
  cases hw : qs.windowed [countRow (S.matched db (qs.select S.dialect)).length] with
  | nil => exact ⟨fun h => (by cases h), fun h => absurd rfl h.1⟩
  | cons row _ =>
    have hrow := List.mem_singleton.mp (mem_windowed (hw ▸ List.mem_cons_self))
    subst hrow
    have hread := congrArg (fun count : Except OrmError (Option Int) => do return (← count).getD 0)
      (tryI64_i64 lawful (S.matched db (qs.select S.dialect)).length)
    refine (Eq.congr_left hread).trans ⟨fun h => ?_, fun h => ?_⟩
    · exact ⟨List.cons_ne_nil _ _, (Except.ok.inj h).symm⟩
    · rw [h.2]
      rfl

section All
variable {ι : Type} {inTransaction : Bool} {fromRow : Row Cell → Except OrmError ι} {L : List ι}

omit [Fmt] in
theorem checkForUpdate_none (hlock : qs.forUpdate = none) : qs.checkForUpdate S.dialect inTransaction = .ok () := by
  rw [QuerySet.checkForUpdate, hlock]

theorem all_ok_iff (hlock : qs.forUpdate = none) : qs.all S db inTransaction fromRow = .ok L ↔
    ∃ rows, S.fetch db (qs.select S.dialect) = .ok rows ∧ rows.mapM fromRow = .ok L := by
  rw [QuerySet.all, checkForUpdate_none hlock]
  exact Except.bind_eq_ok (x := S.fetch db (qs.select S.dialect)) (f := fun rows => rows.mapM fromRow)

omit [Fmt] in
theorem mapM_take {rows : List (Row Cell)} (h : rows.mapM fromRow = .ok L) (n : Nat) :
    (rows.take n).mapM fromRow = .ok (L.take n) :=
  Except.mapM_eq_ok.mpr (List.forall₂_take n (Except.mapM_eq_ok.mp h))

variable (hlock : qs.forUpdate = none) (hrows : S.fetch db (qs.select S.dialect) = .ok rows)
  (hdecode : rows.mapM fromRow = .ok L) (hwhole : qs.Whole (S.matched db (qs.select S.dialect)).length)
include hrows hwhole

theorem fetch_whole : rows = S.arrange (qs.orderSource true) (S.matched db (qs.select S.dialect)) := by
  rw [fetch_windowed hrows]
  exact windowed_eq_of_whole (by rw [(S.arrange_perm _ _).length_eq]; exact hwhole)

include hlock

variable (inTransaction) in
/-- With another limit, the first rows are read. -/
theorem all_limit (hdecode : rows.mapM fromRow = .ok L) (n : Nat) :
    QuerySet.all S db inTransaction fromRow ({ qs with limit := some n } : QuerySet m) = .ok (L.take n) := by
  refine (all_ok_iff (show ({ qs with limit := some n } : QuerySet m).forUpdate = none from hlock)).mpr
    ⟨rows.take n, ?_, mapM_take hdecode n⟩
  refine (fetch_compile hrows (some n) qs.offset true rfl).trans ?_
  rw [Int.toNat_of_nonpos hwhole.1, List.drop_zero, ← fetch_whole hrows hwhole, limited_some]

theorem exists_whole : qs.exists_ S db inTransaction = .ok (decide (rows ≠ [])) := by
  have hfetch := fetch_compile hrows (some 1) qs.offset false (containsWhere_head "1" (by simp))
  rw [Int.toNat_of_nonpos hwhole.1, List.drop_zero] at hfetch
  have hone : S.limited (some 1) (S.arrange (qs.orderSource false) (S.matched db (qs.select S.dialect))) = .ok _ :=
    limited_some 1 _
  rw [hone] at hfetch
  have hempty : (S.arrange (qs.orderSource false) (S.matched db (qs.select S.dialect))).take 1 ≠ [] ↔ rows ≠ [] := by
    rw [fetch_whole hrows hwhole, ← List.length_pos_iff, ← List.length_pos_iff, List.length_take,
      (S.arrange_perm _ _).length_eq, (S.arrange_perm _ _).length_eq]
    omega
  rw [QuerySet.exists_, checkForUpdate_none hlock]
  refine (congrArg (fun fetched : Except OrmError (List (Row Cell)) => do return decide ((← fetched) ≠ [])) hfetch).trans
    (congrArg Except.ok ?_)
  exact decide_eq_decide.mpr hempty

end All

/-- `COUNT(*)` among aggregates counts the rows selected, whatever the window. -/
theorem aggregate_count (lawful : LawfulGet G) (A : Aggregates) (hlock : qs.forUpdate = none)
    (hrows : S.fetch db (qs.select S.dialect) = .ok rows) :
    qs.aggregate S db G A [.count "*"] = .ok [.i64 (S.matched db (qs.select S.dialect)).length] := by
  have hfetch := fetchAggregates_compile hrows none none (containsWhere_head "COUNT(*)" (by simp))
    fun rows => [.i64 rows.length]
  have hread (n : Int) : AggExpr.read G (.count "*") (.i64 n) = .ok (.i64 n) :=
    congrArg (fun count : Except OrmError (Option Int) => do return AggResult.i64 ((← count).getD 0)) (tryI64_i64 lawful n)
  rw [QuerySet.aggregate, hlock]
  refine (congrArg (fun fetched : Except OrmError (List (List Cell)) => do
    let row ← Server.fetchOne (← fetched)
    ([AggExpr.count "*"].zip row).mapM fun (p : AggExpr × Cell) => p.1.read G p.2) hfetch).trans ?_
  refine Except.mapM_eq_ok.mpr (.cons (hread _) .nil)

/-! ### Projections -/

/-- The select list of the fields is not taken for a filter. -/
def QuerySet.Clear (qs : QuerySet m) (fields : List String) : Prop :=
  qs.searchCondition = none ∨ qs.filters ≠ [] ∨ containsWhere (selectHead m (selectList m fields)) = false

omit [Fmt] in
theorem Where.withSearch_none {head : String} (cs : List Cond) : Where.withSearch head cs none = .ofFilters cs := rfl

theorem compileAll_eq_nil {d : Dialect} {outer : String} {sub : Option String} {toCol : String → ColRef} {es : List Expr}
    {st : Params} : (compileAll d outer sub toCol es st).1 = [] ↔ es = [] := by
  cases es with
  | nil => exact ⟨fun _ => rfl, fun _ => rfl⟩
  | cons e es => exact ⟨fun h => (by cases h), fun h => (by cases h)⟩

/-- The clause of a projection is the one of `all`, or a search with no `WHERE` before it. -/
theorem values_where (fields : List String) {d : Dialect} (hbound : ∀ text, (qs.select d).bound ≠ .dangling text) :
    (qs.Clear fields → (qs.compileSelectWithOrder (selectList m fields) true d).where_ = (qs.select d).where_) ∧
      (¬qs.Clear fields → ∃ text, (qs.compileSelectWithOrder (selectList m fields) true d).where_ = .dangling text) := by
  have hwhere (list : String) : (qs.compileSelectWithOrder list true d).where_ =
      .withSearch (selectHead m list) (qs.compileFilters d ⟨[], 1⟩).1 qs.searchCondition := rfl
  have hfilters : (qs.compileFilters d ⟨[], 1⟩).1 = [] ↔ qs.filters = [] := compileAll_eq_nil
  rw [QuerySet.select, Select.bound, hwhere] at hbound
  rw [QuerySet.select, hwhere, hwhere, QuerySet.Clear]
  cases hsearch : qs.searchCondition with
  | none => exact ⟨fun _ => rfl, fun h => absurd (.inl rfl) h⟩
  | some sc =>
    rw [hsearch] at hbound
    simp only [Where.withSearch, hfilters] at hbound ⊢
    by_cases hnil : qs.filters = []
    · have hstar : containsWhere (selectHead m "*") ≠ true := fun hcontains => by
        rw [if_pos ⟨hnil, hcontains⟩] at hbound
        exact hbound sc rfl
      constructor
      · rintro (h | h | h)
        · cases h
        · exact absurd hnil h
        · rw [if_neg fun hwhere => Bool.false_ne_true (h.symm.trans hwhere.2), if_neg fun hwhere => hstar hwhere.2]
      · intro h
        have hcontains : containsWhere (selectHead m (selectList m fields)) ≠ false := fun hfalse => h (.inr (.inr hfalse))
        exact ⟨sc, if_pos ⟨hnil, eq_true_of_ne_false hcontains⟩⟩
    · rw [if_neg fun h => hnil h.1, if_neg fun h => hnil h.1]
      exact ⟨fun _ => rfl, fun h => absurd (.inr (.inl hnil)) h⟩

theorem values_ok_iff (inTransaction : Bool) (G : TryGet) {fields : List String} (hlock : qs.forUpdate = none)
    (hrows : S.fetch db (qs.select S.dialect) = .ok rows) (hfields : fields ≠ [])
    (hknown : fields.forM (checkField m) = .ok ()) :
    qs.values S db inTransaction G fields = .ok (rows.map (valuesRow G m fields)) ↔ qs.Clear fields := by
  have hvalues : qs.values S db inTransaction G fields =
      (S.fetch db (qs.compileSelectWithOrder (selectList m fields) true S.dialect)).map
        (List.map (valuesRow G m fields)) := by
    rw [QuerySet.values, checkForUpdate_none hlock]
    refine (if_neg hfields).trans ?_
    rw [hknown]
    rfl
  obtain ⟨hclear, hdangling⟩ := values_where fields (Server.fetch_bound hrows)
  rw [hvalues]
  by_cases h : qs.Clear fields
  · have hbound : (qs.compileSelectWithOrder (selectList m fields) true S.dialect).bound = (qs.select S.dialect).bound := by
      rw [Select.bound, hclear h]
      rfl
    have hfetch : S.fetch db (qs.compileSelectWithOrder (selectList m fields) true S.dialect) = .ok rows := by
      rw [Server.fetch_of_bound (by rw [hbound]; exact Server.fetch_bound hrows), Server.matched, hbound, ← hrows,
        Server.fetch_of_bound (Server.fetch_bound hrows)]
      rfl
    rw [hfetch]
    exact iff_of_true rfl h
  · obtain ⟨text, htext⟩ := hdangling h
    have hbound : (qs.compileSelectWithOrder (selectList m fields) true S.dialect).bound = .dangling text := by
      rw [Select.bound, htext]
      rfl
    rw [Server.fetch, hbound]
    exact iff_of_false (fun h => by cases h) h

end Operations

/-! ### Agreement -/

section Agreement
variable [Fmt] {m : ModelMeta} {ι : Type} (S : Server) (db : Tables Cell) (inTransaction : Bool) (G : TryGet)
  (A : Aggregates) (fromRow : Row Cell → Except OrmError ι) (qs : QuerySet m) (L : List ι)

/-- Lists of fields that `values` accepts. -/
def Projected (m : ModelMeta) (fields : List String) : Prop := fields ≠ [] ∧ fields.forM (checkField m) = .ok ()

/-- Every operation tells of the list that `all` returns, and projections of its rows. -/
structure TerminalsAgree : Prop where
  count : qs.count S db G = .ok L.length
  exists_ : qs.exists_ S db inTransaction = .ok (decide (0 < L.length))
  first : qs.first S db inTransaction fromRow = .ok L.head?
  get : ∀ x, qs.get S db inTransaction fromRow = .ok x ↔ L = [x]
  notFound : qs.get S db inTransaction fromRow = .error (.notFound m.structName) ↔ L.length = 0
  multiple : qs.get S db inTransaction fromRow = .error (.multipleObjectsReturned m.structName) ↔ 1 < L.length
  aggregate : qs.aggregate S db G A [.count "*"] = .ok [.i64 L.length]
  values : ∃ rows, S.fetch db (qs.select S.dialect) = .ok rows ∧ rows.mapM fromRow = .ok L ∧
    (∀ fields, Projected m fields →
      qs.values S db inTransaction G fields = .ok (rows.map (valuesRow G m fields))) ∧
    ∀ field, Projected m [field] → qs.valuesList S db inTransaction G field =
      .ok (rows.map fun r => decodeValue G ((r.lookup (valuesColumn m field)).getD .null) (fieldKindOf field m))

variable {S db inTransaction G A fromRow qs L}

/-- The one item of a list. -/
def onlyOne (m : ModelMeta) : List ι → Except OrmError ι
  | [] => .error (.notFound m.structName)
  | [x] => .ok x
  | _ => .error (.multipleObjectsReturned m.structName)

theorem get_eq
    (hall : QuerySet.all S db inTransaction fromRow ({ qs with limit := some 2 } : QuerySet m) = .ok (L.take 2)) :
    qs.get S db inTransaction fromRow = onlyOne m L := by
  rw [QuerySet.get, hall]
  rcases L with _ | ⟨x, _ | ⟨y, L⟩⟩ <;> rfl

theorem valuesList_eq {rows : List (Row Cell)} {field : String}
    (h : qs.values S db inTransaction G [field] = .ok (rows.map (valuesRow G m [field]))) :
    qs.valuesList S db inTransaction G field =
      .ok (rows.map fun r => decodeValue G ((r.lookup (valuesColumn m field)).getD .null) (fieldKindOf field m)) := by
  rw [QuerySet.valuesList, h]
  refine congrArg Except.ok ?_
  rw [List.filterMap_map, ← List.filterMap_eq_map]
  rfl

/-- The operations agree with `all` exactly when the window keeps every row and no projection is taken for a filter. -/
theorem terminals_agree_iff (lawful : LawfulGet G) (hlock : qs.forUpdate = none)
    (hall : qs.all S db inTransaction fromRow = .ok L) :
    TerminalsAgree S db inTransaction G A fromRow qs L ↔
      qs.Whole (S.matched db (qs.select S.dialect)).length ∧ ∀ fields, Projected m fields → qs.Clear fields := by
  obtain ⟨rows, hrows, hdecode⟩ := (all_ok_iff hlock).mp hall
  have hlength : rows.length = L.length := (Except.mapM_eq_ok.mp hdecode).length_eq
  have hwindow := fetch_windowed hrows
  have hmatched := (S.arrange_perm (qs.orderSource true) (S.matched db (qs.select S.dialect))).length_eq
  constructor
  · intro h
    obtain ⟨hrow, hcount⟩ := (count_ok_iff lawful hlock hrows _).mp h.count
    constructor
    · rw [← hmatched]
      refine (whole_iff (countRow (S.matched db (qs.select S.dialect)).length) _).mpr ⟨hrow, ?_⟩
      rw [← hwindow, hlength, hmatched]
      exact Int.ofNat_inj.mp hcount
    · intro fields hfields
      obtain ⟨rows', hrows', -, hvalues, -⟩ := h.values
      obtain rfl := Except.ok.inj (hrows.symm.trans hrows')
      exact (values_ok_iff inTransaction G hlock hrows hfields.1 hfields.2).mp (hvalues fields hfields)
  · rintro ⟨hwhole, hclear⟩
    have htotal : (S.matched db (qs.select S.dialect)).length = L.length := by
      rw [← hlength, fetch_whole hrows hwhole, hmatched]
    have hone := all_limit inTransaction hlock hrows hwhole hdecode 1
    have hget := get_eq (all_limit inTransaction hlock hrows hwhole hdecode 2)
    have hvalues (fields : List String) (hfields : Projected m fields) :=
      (values_ok_iff inTransaction G hlock hrows hfields.1 hfields.2).mpr (hclear fields hfields)
    refine ⟨?_, ?_, ?_, ?_, ?_, ?_, ?_, rows, hrows, hdecode, hvalues, fun field hfield => valuesList_eq (hvalues _ hfield)⟩
    · refine (count_ok_iff lawful hlock hrows _).mpr ⟨?_, by rw [htotal]⟩
      exact ((whole_iff _ _).mp (hmatched.symm ▸ hwhole)).1
    · rw [exists_whole hlock hrows hwhole, ← hlength]
      exact congrArg Except.ok (decide_eq_decide.mpr List.length_pos_iff.symm)
    · rw [QuerySet.first]
      refine (congrArg (fun items : Except OrmError (List ι) => do return (← items).head?) hone).trans ?_
      exact congrArg Except.ok (List.head?_take.trans (if_neg Nat.one_ne_zero))
    · intro x
      rw [hget]
      rcases L with _ | ⟨y, _ | ⟨z, L⟩⟩ <;> simp [onlyOne]
    · rw [hget]
      rcases L with _ | ⟨y, _ | ⟨z, L⟩⟩ <;> simp [onlyOne]
    · rw [hget]
      rcases L with _ | ⟨y, _ | ⟨z, L⟩⟩ <;> simp [onlyOne]
    · rw [aggregate_count lawful A hlock hrows, htotal]

end Agreement

/-! ### A count behind an offset -/

/-- Getters that read each value as what it is. -/
def plainGet : TryGet :=
  let mismatched {α : Type} : Except OrmError (Option α) := .error (.query "mismatched types")
  let integer : Cell → Except OrmError (Option Int)
    | .i64 n => .ok (some n)
    | .null => .ok none
    | _ => mismatched
  let float : Cell → Except OrmError (Option F64)
    | .f64 x => .ok (some x)
    | .null => .ok none
    | _ => mismatched
  { i64 := integer
    i32 := integer
    i16 := integer
    f64 := float
    f32 := float
    string := fun c => match c with
      | .text s => .ok (some s)
      | .null => .ok none
      | _ => mismatched
    bool := fun c => match c with
      | .bool b => .ok (some b)
      | .null => .ok none
      | _ => mismatched
    dateTime := fun c => match c with
      | .dateTime t => .ok (some t)
      | .null => .ok none
      | _ => mismatched }

theorem plainGet_lawful : LawfulGet plainGet where
  i64 _ := rfl
  i64_null c := by cases c <;> simp [TryGet.tryI64, orElse, plainGet]
  f64_null c := by cases c <;> simp [TryGet.tryF64, orElse, plainGet]
  string_null c := by cases c <;> simp [plainGet]
  bool_null c := by cases c <;> simp [plainGet]
  dateTime_null c := by cases c <;> simp [plainGet]

/-- The drafts within a window. -/
def windowedDrafts (limit offset : Option Int) : QuerySet draftMeta := { limit, offset }

/-- A limit that is as large as the table is not felt. -/
theorem roomy_window : @TerminalsAgree .decimal draftMeta _ nullServer (drafts [.text "a", .text "b"]) false plainGet
    (fun _ _ => .null) .ok (windowedDrafts (some 2) none)
    [[("id", .i64 0), ("title", .text "a")], [("id", .i64 1), ("title", .text "b")]] :=
  (@terminals_agree_iff .decimal _ _ _ _ _ _ _ _ _ _ plainGet_lawful rfl rfl).mpr
    ⟨⟨by decide, fun n hn => .inr (by cases hn; decide)⟩, fun _ _ => .inl rfl⟩

/-- Behind an offset of one, the second draft is listed, and the count has no row to read. -/
theorem count_behind_offset :
    ¬∀ (m : ModelMeta) (S : Server) (db : Tables Cell) (G : TryGet) (A : Aggregates) (qs : QuerySet m) (L : List (Row Cell)),
      LawfulGet G → qs.forUpdate = none → @QuerySet.all .decimal m _ S db false .ok qs = .ok L →
      @TerminalsAgree .decimal m _ S db false G A .ok qs L := by
  intro h
  let _ : Fmt := .decimal
  have hcount := (h draftMeta nullServer (drafts [.text "a", .text "b"]) plainGet (fun _ _ => .null)
    (windowedDrafts none (some 1)) [[("id", .i64 1), ("title", .text "b")]] plainGet_lawful rfl rfl).count
  have hnone : QuerySet.count nullServer (drafts [.text "a", .text "b"]) plainGet (windowedDrafts none (some 1)) =
    .error Server.rowNotFound := rfl
  rw [hnone] at hcount
  cases hcount

end Djangors.Orm
