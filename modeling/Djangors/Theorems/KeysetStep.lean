import Mathlib.Order.Defs.LinearOrder
import Djangors.Lib.Lexico
import Djangors.Theorems.Terminals

/-! # Steps of keyset pagination

`after` with the value and the key of a row selects the rows that follow it in the order of the value and the key, unless
NULL stands among the values: the server puts NULL at one end of the order, and no comparison with it is true. -/

namespace Djangors.Orm
open Db Sql

/-! ### Orders -/

section Order
variable {κ : Type} [LinearOrder κ] (d : Dialect) (rank : Cell → κ)

/-- Whether a value stands strictly before another one in ascending order: NULL is last for Postgres and first for
    SQLite. -/
def SortsBelow (a b : Cell) : Prop :=
  if a = .null then d = .sqlite ∧ b ≠ .null
  else if b = .null then d = .postgres
  else rank a < rank b

instance (a b : Cell) : Decidable (SortsBelow d rank a b) :=
  inferInstanceAs (Decidable (if a = .null then d = .sqlite ∧ b ≠ .null else if b = .null then d = .postgres else rank a < rank b))

/-- Whether a row stands strictly before another one under one column of an `ORDER BY`. -/
def SortsBy (column : String × Bool) (r r' : Row Cell) : Prop :=
  let a := (r.lookup column.1).getD .null
  let b := (r'.lookup column.1).getD .null
  if column.2 then SortsBelow d rank b a else SortsBelow d rank a b

instance (column : String × Bool) : DecidableRel (SortsBy d rank column) := fun _ _ =>
  inferInstanceAs (Decidable (if column.2 then SortsBelow d rank _ _ else SortsBelow d rank _ _))

/-- Whether a row stands strictly before another one under `ORDER BY`. -/
abbrev SortsBefore (columns : List (String × Bool)) (r r' : Row Cell) : Prop := Lexico.Precedes (SortsBy d rank) columns r r'

/-- The server compares values as it ranks them, says nothing about NULL, and puts rows in the order of their columns. -/
structure Ranks (S : Server) : Prop where
  lt : ∀ a b, a ≠ .null → b ≠ .null → S.interp.compare .lt a b = some (decide (rank a < rank b))
  gt : ∀ a b, a ≠ .null → b ≠ .null → S.interp.compare .gt a b = some (decide (rank b < rank a))
  eq : ∀ a b, a ≠ .null → b ≠ .null → S.interp.compare .eq a b = some (decide (rank a = rank b))
  null : ∀ op a, S.interp.compare op a .null = none ∧ S.interp.compare op .null a = none
  i64 : ∀ m n : Int, rank (.i64 m) < rank (.i64 n) ↔ m < n
  arrange : ∀ (columns : List (String × Bool)) rows,
    (S.arrange (columns.map fun c => ("\"" ++ c.1 ++ "\"", c.2)) rows).Pairwise fun r r' =>
      ¬SortsBefore S.dialect rank columns r' r

variable {d rank} {a b : Cell} {column : String × Bool} {r r' : Row Cell}

theorem sortsBelow_asymm (h : SortsBelow d rank a b) : ¬SortsBelow d rank b a := by
  intro h'
  rw [SortsBelow] at h h'
  split at h
  · rename_i ha
    rw [if_neg h.2, if_pos ha, h.1] at h'
    cases h'
  · rename_i ha
    split at h
    · rename_i hb
      rw [if_pos hb, h] at h'
      cases h'.1
    · rename_i hb
      rw [if_neg hb, if_neg ha] at h'
      exact lt_asymm h h'

theorem sortsBelow_of_ne_null (ha : a ≠ .null) (hb : b ≠ .null) : SortsBelow d rank a b ↔ rank a < rank b := by
  rw [SortsBelow, if_neg ha, if_neg hb]

theorem sortsBy_asymm (h : SortsBy d rank column r r') : ¬SortsBy d rank column r' r := by
  rw [SortsBy] at h ⊢
  split at h
  · rename_i hdesc
    rw [if_pos hdesc]
    exact sortsBelow_asymm h
  · rename_i hasc
    rw [if_neg hasc]
    exact sortsBelow_asymm h

theorem sortsBelow_between (h : SortsBelow d rank a b) (c : Cell) : SortsBelow d rank a c ∨ SortsBelow d rank c b := by
  by_cases hc : c = .null
  · cases d with
    | sqlite =>
      refine .inr ?_
      rw [SortsBelow, if_pos hc]
      refine ⟨rfl, fun hb => ?_⟩
      rw [hb, SortsBelow] at h
      split at h
      · exact h.2 rfl
      · rw [if_pos rfl] at h
        cases h
    | postgres =>
      refine .inl ?_
      rw [SortsBelow] at h ⊢
      split at h
      · cases h.1
      · rename_i ha
        rw [if_neg ha, if_pos hc]
  by_cases ha : a = .null
  · rw [ha, SortsBelow, if_pos rfl] at h
    refine .inl ?_
    rw [ha, SortsBelow, if_pos rfl]
    exact ⟨h.1, hc⟩
  by_cases hb : b = .null
  · rw [hb, SortsBelow, if_neg ha, if_pos rfl] at h
    refine .inr ?_
    rw [hb, SortsBelow, if_neg hc, if_pos rfl]
    exact h
  rw [sortsBelow_of_ne_null ha hb] at h
  rw [sortsBelow_of_ne_null ha hc, sortsBelow_of_ne_null hc hb]
  exact (lt_or_ge (rank a) (rank c)).imp_right fun hle => hle.trans_lt h

theorem sortsBy_between (h : SortsBy d rank column r r') (r'' : Row Cell) :
    SortsBy d rank column r r'' ∨ SortsBy d rank column r'' r' := by
  rw [SortsBy] at h
  rw [SortsBy, SortsBy]
  split at h
  · rename_i hdesc
    rw [if_pos hdesc, if_pos hdesc]
    exact (sortsBelow_between h _).symm
  · rename_i hasc
    rw [if_neg hasc, if_neg hasc]
    exact sortsBelow_between h _

theorem sortsBefore_asymm {columns : List (String × Bool)} (r r' : Row Cell) (h : SortsBefore d rank columns r r') :
    ¬SortsBefore d rank columns r' r :=
  Lexico.asymm (fun _ _ _ => sortsBy_asymm) h

/-- Rows sorted by insertion are in order. -/
theorem insertionSort_arranged (columns : List (String × Bool)) (rows : List (Row Cell)) :
    (rows.insertionSort fun r r' => ¬SortsBefore d rank columns r' r).Pairwise fun r r' => ¬SortsBefore d rank columns r' r := by
  have htotal : Std.Total fun r r' : Row Cell => ¬SortsBefore d rank columns r' r := by
    refine ⟨fun r r' => ?_⟩
    by_cases h : SortsBefore d rank columns r' r
    · exact .inr (sortsBefore_asymm _ _ h)
    · exact .inl h
  have hbetween (column : String × Bool) (r r'' r' : Row Cell) (h : SortsBy d rank column r r') :
      SortsBy d rank column r r'' ∨ SortsBy d rank column r'' r' := sortsBy_between h r''
  have htrans : IsTrans (Row Cell) fun r r' => ¬SortsBefore d rank columns r' r :=
    ⟨fun _ _ _ h h' hsorts => (Lexico.between hbetween hsorts).elim h' h⟩
  exact List.pairwise_insertionSort _ rows

end Order

/-! ### Positions -/

section Positions
variable {κ : Type} [LinearOrder κ] {rank : Cell → κ} {S : Server} {descending : Bool}

/-- Whether a value follows another one in a direction, when neither is NULL. -/
def Follows (rank : Cell → κ) (descending : Bool) (a b : Cell) : Prop :=
  if descending then rank a < rank b else rank b < rank a

theorem not_follows_iff (descending : Bool) {a b : Cell} :
    ¬Follows rank descending a b ∧ ¬Follows rank descending b a ↔ rank a = rank b := by
  cases descending with
  | false => exact ⟨fun h => le_antisymm (not_lt.mp h.1) (not_lt.mp h.2), fun h => ⟨h.not_gt, h.not_lt⟩⟩
  | true => exact ⟨fun h => le_antisymm (not_lt.mp h.2) (not_lt.mp h.1), fun h => ⟨h.not_lt, h.not_gt⟩⟩

theorem sortsBy_iff {d : Dialect} {column : String} {r r' : Row Cell} (hr : (r.lookup column).getD .null ≠ .null)
    (hr' : (r'.lookup column).getD .null ≠ .null) :
    SortsBy d rank (column, descending) r r' ↔
      Follows rank descending ((r'.lookup column).getD .null) ((r.lookup column).getD .null) := by
  cases descending with
  | false => exact sortsBelow_of_ne_null hr hr'
  | true => exact sortsBelow_of_ne_null hr' hr

/-- A comparison says nothing of NULL. -/
theorem compares_iff (law : Ranks rank S) {op : SqlOp} {p : Cell → Cell → Bool}
    (hop : ∀ a b, a ≠ .null → b ≠ .null → S.interp.compare op a b = some (p a b)) (column : String) (other : Cell)
    (r : Row Cell) :
    compares S op column other r = true ↔
      (r.lookup column).getD .null ≠ .null ∧ other ≠ .null ∧ p ((r.lookup column).getD .null) other = true := by
  rw [compares, beq_iff_eq]
  cases r.lookup column with
  | none => simp
  | some a =>
    rw [Option.bind_some, Option.getD_some]
    by_cases ha : a = .null
    · simp [ha, (law.null op other).2]
    · by_cases hb : other = .null
      · simp [hb, (law.null op a).1]
      · rw [hop a other ha hb, Option.some_inj]
        exact ⟨fun h => ⟨ha, hb, h⟩, fun h => h.2.2⟩

theorem compares_follows (law : Ranks rank S) (column : String) (other : Cell) (r : Row Cell) :
    compares S (if descending then .lt else .gt) column other r = true ↔
      (r.lookup column).getD .null ≠ .null ∧ other ≠ .null ∧
        Follows rank descending ((r.lookup column).getD .null) other := by
  cases descending with
  | false => exact (compares_iff law law.gt column other r).trans (by rw [decide_eq_true_eq]; rfl)
  | true => exact (compares_iff law law.lt column other r).trans (by rw [decide_eq_true_eq]; rfl)

section Rows
variable {orderColumn pkColumn : String} {r r' : Row Cell} {v : Value} {k k' : Int}

/-- A position without NULL lies before the rows that sort behind it and have a value there. -/
theorem beyond_iff (law : Ranks rank S) (hk : r.lookup pkColumn = some (.i64 k)) (hk' : r'.lookup pkColumn = some (.i64 k'))
    (hv : v.toBind.cell = (r.lookup orderColumn).getD .null) :
    Beyond S orderColumn pkColumn descending (v, k) r' = true ↔
      SortsBefore S.dialect rank [(orderColumn, descending), (pkColumn, descending)] r r' ∧
        (r.lookup orderColumn).getD .null ≠ .null ∧ (r'.lookup orderColumn).getD .null ≠ .null := by
  have hpk : (r.lookup pkColumn).getD .null ≠ .null := by rw [hk]; exact nofun
  have hpk' : (r'.lookup pkColumn).getD .null ≠ .null := by rw [hk']; exact nofun
  have hkey : (r.lookup pkColumn).getD .null = .i64 k := by rw [hk]; rfl
  rw [Beyond, Bool.or_eq_true, Bool.and_eq_true, compares_follows law, compares_iff law law.eq, compares_follows law, hv,
    decide_eq_true_eq]
  by_cases hr : (r.lookup orderColumn).getD .null = .null
  · simp [hr]
  by_cases hr' : (r'.lookup orderColumn).getD .null = .null
  · simp [hr']
  rw [SortsBefore, Lexico.Precedes, Lexico.Precedes, Lexico.Precedes, sortsBy_iff hr hr', sortsBy_iff hr' hr,
    sortsBy_iff hpk hpk', hkey, ← not_follows_iff descending]
  have hnull : Cell.i64 k ≠ .null := nofun
  simp only [hr, hr', hpk', hnull, ne_eq, not_false_eq_true, and_self, and_true, true_and, and_false, or_false]
  by_cases hfollows : Follows rank descending ((r'.lookup orderColumn).getD .null) ((r.lookup orderColumn).getD .null)
  · simp [hfollows]
  · simp [hfollows]

/-- Rows with different keys are told apart. -/
theorem sortsBefore_or (law : Ranks rank S) (hk : r.lookup pkColumn = some (.i64 k)) (hk' : r'.lookup pkColumn = some (.i64 k'))
    (hne : r.lookup pkColumn ≠ r'.lookup pkColumn) :
    SortsBefore S.dialect rank [(orderColumn, descending), (pkColumn, descending)] r r' ∨
      SortsBefore S.dialect rank [(orderColumn, descending), (pkColumn, descending)] r' r := by
  have hpk : (r.lookup pkColumn).getD .null ≠ .null := by rw [hk]; exact nofun
  have hpk' : (r'.lookup pkColumn).getD .null ≠ .null := by rw [hk']; exact nofun
  have hkeys : SortsBy S.dialect rank (pkColumn, descending) r r' ∨ SortsBy S.dialect rank (pkColumn, descending) r' r := by
    rw [sortsBy_iff hpk hpk', sortsBy_iff hpk' hpk, hk, hk', Option.getD_some, Option.getD_some]
    have hlt : k < k' ∨ k' < k := lt_or_gt_of_ne fun heq => hne (by rw [hk, hk', heq])
    cases descending with
    | false => exact hlt.imp (law.i64 k k').mpr (law.i64 k' k).mpr
    | true => exact hlt.symm.imp (law.i64 k' k).mpr (law.i64 k k').mpr
  by_cases hb : SortsBy S.dialect rank (orderColumn, descending) r r'
  · exact .inl (.inl hb)
  by_cases hb' : SortsBy S.dialect rank (orderColumn, descending) r' r
  · exact .inr (.inl hb')
  by_cases hkey : SortsBy S.dialect rank (pkColumn, descending) r r'
  · exact .inl (.inr ⟨hb', .inl hkey⟩)
  · exact .inr (.inr ⟨hb, .inl (hkeys.resolve_left hkey)⟩)

end Rows

end Positions

/-! ### The step -/

section Step
variable [Fmt] {m : ModelMeta} {S : Server} {db : Tables Cell} {qs qs' : QuerySet m}

/-- The filter of `after`. -/
def afterFilter (orderField : String) (v : Value) (pkField : String) (k : Int) (descending : Bool) : Expr :=
  let op : CompareOp := if descending then .lt else .gt
  .or [.compare orderField op v, .and [.compare orderField .eq v, .compare pkField op (.i64 k)]]

omit [Fmt] in
theorem after_ok {orderField pkField : String} {v : Value} {k : Int} {descending : Bool}
    (h : qs.after orderField v pkField k descending = .ok qs') :
    fieldToCol m orderField = .column (fieldToCol m orderField).name ∧
      fieldToCol m pkField = .column (fieldToCol m pkField).name ∧
      qs' = { qs with filters := qs.filters ++ [afterFilter orderField v pkField k descending] } := by
  rw [QuerySet.after] at h
  obtain ⟨_, horder, h⟩ := Except.bind_eq_ok.mp h
  obtain ⟨_, hpk, h⟩ := Except.bind_eq_ok.mp h
  exact ⟨column_of_known horder, column_of_known hpk, (Except.ok.inj h).symm⟩

omit [Fmt] in
theorem order_ok {text field : String} {descending : Bool} (hfield : stripDash text = (field, descending))
    (h : qs.order text = .ok qs') :
    qs' = { qs with orderBy := qs.orderBy ++ [("\"" ++ (fieldToCol m field).name ++ "\"", descending)] } := by
  rw [QuerySet.order, hfield] at h
  rw [fieldToCol]
  dsimp only at h
  cases hf : m.field? field with
  | some f =>
    rw [hf] at h
    exact (Except.ok.inj h).symm
  | none =>
    rw [hf] at h
    dsimp only at h ⊢
    cases hr : m.relation? field with
    | some r =>
      rw [hr] at h
      exact (Except.ok.inj h).symm
    | none =>
      rw [hr] at h
      cases h

theorem afterFilter_truth {orderField pkField orderColumn pkColumn : String} {v : Value} {k : Int} {descending : Bool}
    (horder : fieldToCol m orderField = .column orderColumn) (hpk : fieldToCol m pkField = .column pkColumn) (r : Row Cell) :
    ((afterFilter orderField v pkField k descending).truth S db m r == some true) =
      Beyond S orderColumn pkColumn descending (v, k) r := by
  have heval : (afterFilter orderField v pkField k descending).truth S db m r =
      (Pred.disj [.cmp (fieldToCol m orderField) (if descending then .lt else .gt) (.param v.toBind.cell),
        .conj [.cmp (fieldToCol m orderField) .eq (.param v.toBind.cell),
          .cmp (fieldToCol m pkField) (if descending then .lt else .gt) (.param (.i64 k))]]).eval S.interp db
            [⟨m.tableName, r⟩] := by
    cases descending <;> rfl
  rw [heval, horder, hpk, Bool.eq_iff_iff, beq_iff_eq, Pred.eval, Pred.evalDisj, Pred.evalDisj, Pred.evalDisj, or3_eq_true,
    or3_eq_true, eval_compare, Pred.eval, Pred.evalConj_eq_true, List.forall_mem_cons, List.forall_mem_singleton,
    eval_compare, eval_compare, Beyond, Bool.or_eq_true, Bool.and_eq_true]
  simp only [Option.some.injEq, Bool.false_eq_true, or_false]

/-- One more filter leaves no search condition behind a select list. -/
theorem bound_concat {d : Dialect} (e : Expr) (text : String) :
    (QuerySet.select ({ qs with filters := qs.filters ++ [e] } : QuerySet m) d).bound ≠ .dangling text := by
  rw [QuerySet.select_bound]
  cases hsearch : qs.searchCondition with
  | none => exact Where.ofFilters_ne_dangling _ text
  | some sc =>
    have hfilters : QuerySet.boundFilters ({ qs with filters := qs.filters ++ [e] } : QuerySet m) d ≠ [] := by
      rw [QuerySet.boundFilters_append]
      exact List.append_ne_nil_of_right_ne_nil _ (List.cons_ne_nil _ _)
    rw [Where.withSearch, if_neg fun h => hfilters h.1]
    intro h
    cases h

variable (S db) in
theorem fetch_concat (hlimit : qs.limit = none) (e : Expr) :
    ∃ rows, S.fetch db (QuerySet.select ({ qs with filters := qs.filters ++ [e] } : QuerySet m) S.dialect) = .ok rows :=
  ⟨_, (Server.fetch_of_bound (bound_concat e)).trans (congrArg (fun limit => S.limited limit _) hlimit)⟩

variable {κ : Type} [LinearOrder κ] {rank : Cell → κ} {columns : List (String × Bool)} {rows : List (Row Cell)}

/-- Rows that the order tells apart are read in the order. -/
theorem fetch_sorted (law : Ranks rank S) (horder : qs.orderBy = columns.map fun c => ("\"" ++ c.1 ++ "\"", c.2))
    (hcolumns : columns ≠ []) (hlimit : qs.limit = none) (hoffset : qs.offset = none)
    (hdistinct : (db m.tableName).Pairwise fun r r' =>
      SortsBefore S.dialect rank columns r r' ∨ SortsBefore S.dialect rank columns r' r)
    (h : S.fetch db (qs.select S.dialect) = .ok rows) : rows.Pairwise (SortsBefore S.dialect rank columns) := by
  have hsource : qs.orderSource true = columns.map fun c => ("\"" ++ c.1 ++ "\"", c.2) := by
    rw [QuerySet.orderSource, horder]
    exact if_pos fun hnil => hcolumns (List.map_eq_nil_iff.mp hnil)
  have hwhole : qs.Whole (S.matched db (qs.select S.dialect)).length := by
    rw [QuerySet.Whole, hoffset, hlimit]
    exact ⟨le_rfl, nofun⟩
  have hrows := fetch_whole h hwhole
  rw [hsource] at hrows
  refine Lexico.sorted_of_distinct (hrows ▸ law.arrange columns _) ?_
  have hperm : rows.Perm (S.matched db (qs.select S.dialect)) := hrows ▸ S.arrange_perm _ _
  exact (hperm.pairwise_iff fun h => h.symm).mpr (hdistinct.sublist List.filter_sublist)

section Follows
variable {orderField pkField orderColumn pkColumn : String} {descending : Bool} {before following : List (Row Cell)}
  {r : Row Cell} {v : Value} {k : Int}

theorem follows_iff (law : Ranks rank S)
    (horder : qs.orderBy = [("\"" ++ orderColumn ++ "\"", descending), ("\"" ++ pkColumn ++ "\"", descending)])
    (hlimit : qs.limit = none) (hoffset : qs.offset = none) (horderColumn : fieldToCol m orderField = .column orderColumn)
    (hpkColumn : fieldToCol m pkField = .column pkColumn)
    (hkeys : ∀ r ∈ db m.tableName, ∃ k, r.lookup pkColumn = some (.i64 k))
    (hdistinct : (db m.tableName).Pairwise fun r r' => r.lookup pkColumn ≠ r'.lookup pkColumn)
    (hrows : S.fetch db (qs.select S.dialect) = .ok (before ++ r :: following))
    (hv : v.toBind.cell = (r.lookup orderColumn).getD .null) (hk : r.lookup pkColumn = some (.i64 k))
    (hafter : qs.after orderField v pkField k descending = .ok qs') :
    S.fetch db (qs'.select S.dialect) = .ok following ↔
      ∀ r' ∈ db m.tableName, qs.selected S db r' = true →
        SortsBefore S.dialect rank [(orderColumn, descending), (pkColumn, descending)] r r' →
        (r.lookup orderColumn).getD .null ≠ .null ∧ (r'.lookup orderColumn).getD .null ≠ .null := by
  have htold : (db m.tableName).Pairwise fun r r' =>
      SortsBefore S.dialect rank [(orderColumn, descending), (pkColumn, descending)] r r' ∨
        SortsBefore S.dialect rank [(orderColumn, descending), (pkColumn, descending)] r' r := by
    refine hdistinct.imp_of_mem fun {r r'} hr hr' hne => ?_
    obtain ⟨_, hk⟩ := hkeys r hr
    obtain ⟨_, hk'⟩ := hkeys r' hr'
    exact sortsBefore_or law hk hk' hne
  have hsorted := fetch_sorted law horder (List.cons_ne_nil _ _) hlimit hoffset htold hrows
  have hperm := fetch_selected hrows hlimit hoffset
  -- `after` reads the rows of the list that lie behind the position.
  obtain ⟨-, -, hqs'⟩ := after_ok hafter
  obtain ⟨rows, hrows'⟩ := fetch_concat S db hlimit (afterFilter orderField v pkField k descending)
  rw [← hqs'] at hrows'
  have hsorted' := fetch_sorted law (hqs' ▸ horder) (List.cons_ne_nil _ _) (hqs' ▸ hlimit) (hqs' ▸ hoffset) htold hrows'
  have hperm' := fetch_selected hrows' (hqs' ▸ hlimit) (hqs' ▸ hoffset)
  have hbeyond : rows = (before ++ r :: following).filter (Beyond S orderColumn pkColumn descending (v, k)) := by
    refine Lexico.sorted_unique sortsBefore_asymm ?_ hsorted' (hsorted.filter _)
    refine hperm'.trans ((List.Perm.of_eq ?_).trans (hperm.filter _).symm)
    rw [List.filter_filter]
    refine List.filter_congr fun r' _ => ?_
    rw [hqs', selected_concat, afterFilter_truth horderColumn hpkColumn, Bool.and_comm]
  have hsame : rows = following ↔ ∀ r' ∈ before ++ r :: following,
      Beyond S orderColumn pkColumn descending (v, k) r' =
        decide (SortsBefore S.dialect rank [(orderColumn, descending), (pkColumn, descending)] r r') := by
    rw [← Lexico.filter_inj, Lexico.filter_follows sortsBefore_asymm hsorted, hbeyond]
  rw [hrows', Except.ok.injEq, hsame]
  constructor
  · intro h r' hr' hselected hsorts
    obtain ⟨_, hk'⟩ := hkeys r' hr'
    have heq := h r' (hperm.mem_iff.mpr (List.mem_filter.mpr ⟨hr', hselected⟩))
    rw [decide_eq_true hsorts] at heq
    exact ((beyond_iff law hk hk' hv).mp heq).2
  · intro h r' hr'
    obtain ⟨hr', hselected⟩ := List.mem_filter.mp (hperm.mem_iff.mp hr')
    obtain ⟨_, hk'⟩ := hkeys r' hr'
    rw [Bool.eq_iff_iff, beyond_iff law hk hk' hv, decide_eq_true_eq]
    exact ⟨And.left, fun hsorts => ⟨hsorts, h r' hr' hselected hsorts⟩⟩

end Follows

/-- A row of the ordered list is followed by the rows that `after` selects exactly when neither its value nor that of a
    row behind it is NULL, or no row is behind it. -/
theorem after_follows_iff (law : Ranks rank S) {base : QuerySet m} {orderText pkText orderField pkField : String}
    {orderColumn pkColumn : String} {descending : Bool} (hbase : base.orderBy = []) (hlimit : base.limit = none)
    (hoffset : base.offset = none) (horderText : stripDash orderText = (orderField, descending))
    (hpkText : stripDash pkText = (pkField, descending))
    (hordered : (base.order orderText >>= (·.order pkText)) = .ok qs)
    (horderColumn : fieldToCol m orderField = .column orderColumn) (hpkColumn : fieldToCol m pkField = .column pkColumn)
    (hkeys : ∀ r ∈ db m.tableName, ∃ k, r.lookup pkColumn = some (.i64 k))
    (hdistinct : (db m.tableName).Pairwise fun r r' => r.lookup pkColumn ≠ r'.lookup pkColumn)
    {before following : List (Row Cell)} {r : Row Cell}
    (hrows : S.fetch db (qs.select S.dialect) = .ok (before ++ r :: following)) {v : Value} {k : Int}
    (hv : v.toBind.cell = (r.lookup orderColumn).getD .null) (hk : r.lookup pkColumn = some (.i64 k))
    (hafter : qs.after orderField v pkField k descending = .ok qs') :
    S.fetch db (qs'.select S.dialect) = .ok following ↔
      ∀ r' ∈ db m.tableName, qs.selected S db r' = true →
        SortsBefore S.dialect rank [(orderColumn, descending), (pkColumn, descending)] r r' →
        (r.lookup orderColumn).getD .null ≠ .null ∧ (r'.lookup orderColumn).getD .null ≠ .null := by
  obtain ⟨first, hfirst, hsecond⟩ := Except.bind_eq_ok.mp hordered
  have hfirst := order_ok horderText hfirst
  have hsecond := order_ok hpkText hsecond
  have horder : qs.orderBy = [("\"" ++ orderColumn ++ "\"", descending), ("\"" ++ pkColumn ++ "\"", descending)] := by
    rw [hsecond, hfirst, hbase, horderColumn, hpkColumn]
    rfl
  have hlimit : qs.limit = none := by rw [hsecond, hfirst, hlimit]
  have hoffset : qs.offset = none := by rw [hsecond, hfirst, hoffset]
  exact follows_iff law horder hlimit hoffset horderColumn hpkColumn hkeys hdistinct hrows hv hk hafter

end Step

/-! ### Scores -/

/-- A game whose score may be NULL. -/
def gameMeta : ModelMeta where
  structName := "Game"
  appLabel := "play"
  tableName := "play_game"
  fields := [{ name := "id", columnName := "id", kind := .bigInt, primaryKey := true, auto := true },
    { name := "score", columnName := "score", kind := .bigInt, nullable := true }]

def games (scores : List Cell) : Tables Cell := fun t =>
  if t = "play_game" then scores.zipIdx.map fun (score, id) => [("id", .i64 id), ("score", score)] else []

def intRank : Cell → Int
  | .i64 n => n
  | _ => 0

def unquoted (text : String) : String := String.ofList (text.toList.drop 1).dropLast

theorem unquoted_quoted (column : String) : unquoted ("\"" ++ column ++ "\"") = column := by
  rw [unquoted, String.toList_append, String.toList_append]
  have hquote : "\"".toList = ['"'] := rfl
  rw [hquote, List.singleton_append, List.cons_append, List.drop_succ_cons, List.drop_zero, List.dropLast_concat,
    String.ofList_toList]

/-- A server that compares and sorts integers. -/
def rankedServer (d : Dialect) : Server where
  __ := plainServer
  dialect := d
  interp :=
    { plainServer.interp with
      compare := fun op a b =>
        if a = .null ∨ b = .null then none
        else match op with
          | .lt => some (decide (intRank a < intRank b))
          | .gt => some (decide (intRank b < intRank a))
          | .eq => some (decide (intRank a = intRank b))
          | op => plainServer.interp.compare op a b }
  arrange := fun order rows =>
    rows.insertionSort fun r r' => ¬SortsBefore d intRank (order.map fun c => (unquoted c.1, c.2)) r' r
  arrange_perm := fun _ _ => List.perm_insertionSort _ _

theorem rankedServer_ranks (d : Dialect) : Ranks intRank (rankedServer d) where
  lt a b ha hb := if_neg (not_or.mpr ⟨ha, hb⟩)
  gt a b ha hb := if_neg (not_or.mpr ⟨ha, hb⟩)
  eq a b ha hb := if_neg (not_or.mpr ⟨ha, hb⟩)
  null op a := by simp [rankedServer]
  i64 _ _ := Iff.rfl
  arrange columns rows := by
    have hcolumns : (columns.map fun c => ("\"" ++ c.1 ++ "\"", c.2)).map (fun c => (unquoted c.1, c.2)) = columns := by
      rw [List.map_map]
      refine (List.map_congr_left fun c _ => ?_).trans (List.map_id columns)
      rw [Function.comp_apply, unquoted_quoted]
      rfl
    have harranged : (rankedServer d).arrange (columns.map fun c => ("\"" ++ c.1 ++ "\"", c.2)) rows =
        rows.insertionSort fun r r' => ¬SortsBefore d intRank columns r' r := by
      simp only [rankedServer, hcolumns]
    rw [harranged]
    exact insertionSort_arranged columns rows

/-- Without NULL, the games behind a game are those that follow it. -/
theorem scored_follow :
    (rankedServer .postgres).fetch (games [.i64 3, .i64 5, .i64 3]) (@QuerySet.select gameMeta .decimal
        { orderBy := [("\"score\"", false), ("\"id\"", false)], filters := [afterFilter "score" (.i64 3) "id" 0 false] }
        .postgres) =
      .ok [[("id", .i64 2), ("score", .i64 3)], [("id", .i64 1), ("score", .i64 5)]] :=
  (@after_follows_iff .decimal gameMeta (rankedServer .postgres) (games [.i64 3, .i64 5, .i64 3]) _ _ Int _ intRank
    (rankedServer_ranks .postgres) {} "score" "id" "score" "id" "score" "id" false rfl rfl rfl rfl rfl rfl rfl rfl
    (List.forall_mem_cons.mpr ⟨⟨0, rfl⟩, List.forall_mem_cons.mpr ⟨⟨1, rfl⟩, List.forall_mem_singleton.mpr ⟨2, rfl⟩⟩⟩)
    (by decide) [] _ [("id", .i64 0), ("score", .i64 3)] (by decide) (.i64 3) 0 rfl rfl rfl).mpr (by decide)

/-- For Postgres a game without a score follows the others, and no position lies before it. -/
theorem unscored_not_followed : ∃ qs qs' : QuerySet gameMeta,
    (QuerySet.order ({} : QuerySet gameMeta) "score" >>= (·.order "id")) = .ok qs ∧
    (rankedServer .postgres).fetch (games [.i64 3, .null]) (@QuerySet.select _ .decimal qs .postgres) =
      .ok ([] ++ [("id", .i64 0), ("score", .i64 3)] :: [[("id", .i64 1), ("score", .null)]]) ∧
    qs.after "score" (.i64 3) "id" 0 false = .ok qs' ∧
    (rankedServer .postgres).fetch (games [.i64 3, .null]) (@QuerySet.select _ .decimal qs' .postgres) = .ok [] ∧
    Ranks intRank (rankedServer .postgres) := by
  refine ⟨_, _, rfl, by decide, rfl, by decide, rankedServer_ranks .postgres⟩

end Djangors.Orm
