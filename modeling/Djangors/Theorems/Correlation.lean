import Djangors.Lib.Except
import Djangors.Lib.Lists
import Djangors.Orm.Resolve
import Djangors.Orm.Compile

/-! # Correlated subqueries

Resolving passes down the model of the query a filter stands in and of the query around it; compiling
passes down the outermost table, the table of the subquery and a naming of columns. This file says
which model each column reference of the SQL must belong to (`slots`), and when it does (`Aligned`). -/

namespace Djangors.Orm
open Db Sql

/-! ### Where columns are named -/

/-- A place where the SQL names a column: the model the column must belong to, and whether the place is
    in the outermost query, where a column needs no table. -/
structure Slot where
  model : ModelMeta
  top : Bool

/-- The reference names a column of the model, and its table where one is needed. -/
def Slot.Meets (s : Slot) : ColRef → Prop
  | .bare c => s.top = true ∧ c ∈ s.model.columns
  | .column c => s.top = true ∧ c ∈ s.model.columns
  | .qualified t c => t = s.model.tableName ∧ c ∈ s.model.columns

/-- `IN` with an empty list, which compiles to `FALSE` and names no column. -/
def UnresolvedCompare.emptyIn (comp : UnresolvedCompare) : Bool :=
  suffixToOp (splitFieldLookup comp.field).2 == .in && (inItems comp.value).isEmpty

/-- The places where the comparisons of a `q!`, `q_f!` and `q_outer!` leaf name columns. -/
def compareSlots (m : ModelMeta) (top : Bool) (comp : UnresolvedCompare) : List Slot :=
  if comp.emptyIn then [] else [⟨m, top⟩]

def fieldSlots (m : ModelMeta) (top : Bool) (_ : UnresolvedFieldCompare) : List Slot := [⟨m, top⟩, ⟨m, top⟩]

def outerSlots (m outer : ModelMeta) (_ : UnresolvedOuterCompare) : List Slot := [⟨m, false⟩, ⟨outer, false⟩]

mutual

/-- The places where the SQL of a filter names columns, in the order of the text. The filter stands in
    a query on `m`, inside a query on `outer`. -/
def slots (m : ModelMeta) (outer : Option ModelMeta) : UnresolvedExpr → List Slot
  | .and compares => compares.flatMap (compareSlots m outer.isNone)
  | .andFields compares => compares.flatMap (fieldSlots m outer.isNone)
  | .andOuter compares =>
    match outer with
    | none => []
    | some outer => compares.flatMap (outerSlots m outer)
  | .all nodes => slotsAll m outer nodes
  | .any nodes => slotsAll m outer nodes
  | .negate inner => slots m outer inner
  | .exists_ _ subMeta filters => slotsAll subMeta (some m) filters

def slotsAll (m : ModelMeta) (outer : Option ModelMeta) : List UnresolvedExpr → List Slot
  | [] => []
  | e :: es => slots m outer e ++ slotsAll m outer es

end

/-! ### When they name the right one -/

/-- A name of a `q!` or `q_f!` filter is taken for a field in the outermost query, and for a column in
    a subquery. -/
def NameOk (m : ModelMeta) (top : Bool) (name : String) : Prop :=
  (top = true ∧ name ∈ m.fields.map (·.name)) ∨ name ∈ m.columns

/-- A name of a `q_outer!` filter is a field or a column. -/
def OuterNameOk (m : ModelMeta) (name : String) : Prop :=
  (∃ f ∈ m.fields, f.name = name ∨ f.columnName = name) ∨ name ∈ m.columns

mutual

/-- The names of a filter are columns where it is compiled, and an outer reference stands in a query
    directly inside the outermost table, `top`. -/
def Aligned (top : ModelMeta) (m : ModelMeta) (outer : Option ModelMeta) : UnresolvedExpr → Prop
  | .and compares => ∀ comp ∈ compares, comp.emptyIn = true ∨ NameOk m outer.isNone (splitFieldLookup comp.field).1
  | .andFields compares => ∀ comp ∈ compares,
    NameOk m outer.isNone (splitFieldLookup comp.left).1 ∧ NameOk m outer.isNone comp.right
  | .andOuter compares => ∀ o ∈ outer, ∀ comp ∈ compares,
    OuterNameOk m (splitFieldLookup comp.field).1 ∧ o.tableName = top.tableName ∧ OuterNameOk o comp.outerField
  | .all nodes => AlignedAll top m outer nodes
  | .any nodes => AlignedAll top m outer nodes
  | .negate inner => Aligned top m outer inner
  | .exists_ _ subMeta filters => AlignedAll top subMeta (some m) filters

def AlignedAll (top : ModelMeta) (m : ModelMeta) (outer : Option ModelMeta) : List UnresolvedExpr → Prop
  | [] => True
  | e :: es => Aligned top m outer e ∧ AlignedAll top m outer es

end

theorem slotsAll_eq_flatMap (m : ModelMeta) (outer : Option ModelMeta) (es : List UnresolvedExpr) :
    slotsAll m outer es = es.flatMap (slots m outer) := by
  induction es with
  | nil => rfl
  | cons e es ih => rw [slotsAll, ih, List.flatMap_cons]

theorem alignedAll_iff {top m : ModelMeta} {outer : Option ModelMeta} {es : List UnresolvedExpr} :
    AlignedAll top m outer es ↔ ∀ e ∈ es, Aligned top m outer e := by
  induction es with
  | nil => simp [AlignedAll]
  | cons e es ih => rw [AlignedAll, ih, List.forall_mem_cons]

/-! ### Names -/

/-- What compiling a filter of a query on `m` inside `outer` passes down. -/
def InQuery (top m : ModelMeta) (sub : Option String) (toCol : String → ColRef) : Option ModelMeta → Prop
  | none => m = top ∧ sub = none ∧ toCol = fieldToCol m
  | some _ => sub = some m.tableName ∧ toCol = .qualified m.tableName

section Names
variable {top m : ModelMeta} {outer : Option ModelMeta} {sub : Option String} {toCol : String → ColRef}

theorem checkFieldMeta_ok {name n : String} (h : checkFieldMeta m name = .ok n) :
    n = name ∧ ((∃ f ∈ m.fields, f.name = name) ∨ ∃ r ∈ m.relations, r.fieldName = name) := by
  simp only [checkFieldMeta] at h
  split at h
  · rename_i hn
    exact ⟨(Except.ok.inj h).symm, by simpa using hn⟩
  · cases h

theorem field?_eq_some {name : String} {f : FieldMeta} (h : m.field? name = some f) : f ∈ m.fields ∧ f.name = name :=
  ⟨List.mem_of_find?_eq_some h, by simpa using List.find?_some h⟩

theorem field?_eq_none {name : String} (h : m.field? name = none) : ∀ f ∈ m.fields, f.name ≠ name := by
  simpa [ModelMeta.field?] using h

theorem relation?_eq_some {name : String} {r : RelationMeta} (h : m.relation? name = some r) :
    r ∈ m.relations ∧ r.fieldName = name :=
  ⟨List.mem_of_find?_eq_some h, by simpa using List.find?_some h⟩

theorem columnName_mem_columns {f : FieldMeta} (h : f ∈ m.fields) : f.columnName ∈ m.columns :=
  List.mem_append_left _ (List.mem_map_of_mem h)

theorem fieldToCol_meets {name n : String} (h : checkFieldMeta m name = .ok n) :
    Slot.Meets ⟨m, true⟩ (fieldToCol m name) ↔ NameOk m true name := by
  simp only [fieldToCol]
  split
  · rename_i f hf
    obtain ⟨hmem, hname⟩ := field?_eq_some hf
    exact iff_of_true ⟨rfl, columnName_mem_columns hmem⟩ (.inl ⟨rfl, List.mem_map.mpr ⟨f, hmem, hname⟩⟩)
  · rename_i hf
    have noField : name ∉ m.fields.map (·.name) := by simpa using field?_eq_none hf
    split
    · rename_i r hr
      obtain ⟨_, rfl⟩ := relation?_eq_some hr
      simp [Slot.Meets, NameOk, noField]
    · simp [Slot.Meets, NameOk, noField]

/-- A name that resolves names a column where it is compiled exactly when it is one there. -/
theorem toCol_meets {name n : String} (ctx : InQuery top m sub toCol outer) (h : checkFieldMeta m name = .ok n) :
    Slot.Meets ⟨m, outer.isNone⟩ (toCol n) ↔ NameOk m outer.isNone name := by
  obtain ⟨rfl, _⟩ := checkFieldMeta_ok h
  cases outer with
  | none =>
    obtain ⟨_, _, rfl⟩ := ctx
    exact fieldToCol_meets h
  | some o =>
    obtain ⟨_, rfl⟩ := ctx
    simp [Slot.Meets, NameOk]

theorem checkFieldColumnMeta_mem {name c : String} (h : checkFieldColumnMeta m name = .ok c) :
    c ∈ m.columns ↔ OuterNameOk m name := by
  simp only [checkFieldColumnMeta] at h
  split at h
  · rename_i f hf
    obtain rfl := Except.ok.inj h
    have hmem := List.mem_of_find?_eq_some hf
    exact iff_of_true (columnName_mem_columns hmem) (.inl ⟨f, hmem, by simpa using List.find?_some hf⟩)
  · rename_i hf
    split at h
    · rename_i r hr
      obtain rfl := Except.ok.inj h
      obtain ⟨_, rfl⟩ := relation?_eq_some hr
      rw [OuterNameOk, or_iff_right]
      simpa using hf
    · cases h

end Names

/-! ### Matching places and references -/

/-- `refs` has a reference for each place of `ss`, and they are met exactly when `ok`. -/
def Matches (ss : List Slot) (refs : List ColRef) (ok : Prop) : Prop :=
  ss.length = refs.length ∧ (List.Forall₂ Slot.Meets ss refs ↔ ok)

theorem Matches.append {ss ss' : List Slot} {rs rs' : List ColRef} {p q : Prop} (h : Matches ss rs p)
    (h' : Matches ss' rs' q) : Matches (ss ++ ss') (rs ++ rs') (p ∧ q) :=
  ⟨by rw [List.length_append, List.length_append, h.1, h'.1], by rw [List.forall₂_append_iff h.1, h.2, h'.2]⟩

theorem Matches.one {s : Slot} {c : ColRef} {p : Prop} (h : s.Meets c ↔ p) : Matches [s] [c] p :=
  ⟨rfl, by simp [h]⟩

theorem Matches.congr {ss : List Slot} {rs : List ColRef} {p q : Prop} (h : Matches ss rs p) (hpq : p ↔ q) :
    Matches ss rs q := ⟨h.1, h.2.trans hpq⟩

theorem compileColumns_refs (d : Dialect) (l : ColRef) (op : CompareOp) (r : ColRef) :
    (compileColumns d l op r).refs = [l, r] := by
  cases op <;> rfl

theorem resolveAll_eq_mapM (m : ModelMeta) (outer : Option ModelMeta) (es : List UnresolvedExpr) : resolveAll m outer es = es.mapM (resolveExprWithMeta m outer) := by
  induction es with
  | nil => rfl
  | cons e es ih => rw [resolveAll, List.mapM_cons, ih]

section Compile
variable [Fmt] (d : Dialect)

/-- A comparison names its column, unless it is an empty `IN`. -/
theorem compileCompare_refs (col : ColRef) (op : CompareOp) (v : Value) (st : Params) :
    (compileCompare d col op v st).1.refs = if op == .in && (inItems v).isEmpty then [] else [col] := by
  cases op with
  | «in» => cases hv : inItems v <;> simp [compileCompare, hv, Pred.refs, Pred.refsAll]
  | _ => rfl

/-- Conditions that match one by one match together. -/
theorem compileAll_matches {ι : Type} {outerTable : String} {sub : Option String} {toCol : String → ColRef}
    {slotsOf : ι → List Slot} {ok : ι → Prop} {xs : List ι} {rs : List Expr}
    (h : List.Forall₂ (fun x r => ∀ st, Matches (slotsOf x) (compileExprSql d outerTable sub toCol r st).1.refs (ok x)) xs rs)
    (st : Params) :
    Matches (xs.flatMap slotsOf) (Pred.refsAll (compileAll d outerTable sub toCol rs st).1) (∀ x ∈ xs, ok x) := by
  induction h generalizing st with
  | nil => exact ⟨rfl, by simp [compileAll, Pred.refsAll]⟩
  | cons h _ ih =>
    rw [List.flatMap_cons, List.forall_mem_cons]
    exact (h st).append (ih _)

variable {top m : ModelMeta} {outer : Option ModelMeta} {sub : Option String} {toCol : String → ColRef}

theorem resolveCompare_matches (ctx : InQuery top m sub toCol outer) {comp : UnresolvedCompare} {r : Expr}
    (h : resolveCompare m comp = .ok r) (st : Params) :
    Matches (compareSlots m outer.isNone comp) (compileExprSql d top.tableName sub toCol r st).1.refs
      (comp.emptyIn = true ∨ NameOk m outer.isNone (splitFieldLookup comp.field).1) := by
  obtain ⟨n, (hn : checkFieldMeta m (splitFieldLookup comp.field).1 = .ok n), h⟩ := Except.bind_eq_ok.mp h
  cases h
  rw [compileExprSql, compileCompare_refs, compareSlots]
  change Matches _ (if comp.emptyIn then [] else _) _
  cases comp.emptyIn with
  | true => exact ⟨rfl, by simp⟩
  | false => exact Matches.one ((toCol_meets ctx hn).trans (by simp))

theorem resolveFieldCompare_matches (ctx : InQuery top m sub toCol outer) {comp : UnresolvedFieldCompare} {r : Expr}
    (h : resolveFieldCompare m comp = .ok r) (st : Params) :
    Matches (fieldSlots m outer.isNone comp) (compileExprSql d top.tableName sub toCol r st).1.refs
      (NameOk m outer.isNone (splitFieldLookup comp.left).1 ∧ NameOk m outer.isNone comp.right) := by
  obtain ⟨left, (hl : checkFieldMeta m (splitFieldLookup comp.left).1 = .ok left), h⟩ := Except.bind_eq_ok.mp h
  obtain ⟨right, hr, h⟩ := Except.bind_eq_ok.mp h
  cases h
  rw [compileExprSql, compileColumns_refs]
  exact (Matches.one (toCol_meets ctx hl)).append (Matches.one (toCol_meets ctx hr))

/-- The right-hand side of an outer comparison is put on the outermost table, whatever the query
    around it. -/
theorem resolveOuterCompare_matches {o : ModelMeta} (ctx : InQuery top m sub toCol (some o))
    {comp : UnresolvedOuterCompare} {r : Expr} (h : resolveOuterCompare m o comp = .ok r) (st : Params) :
    Matches (outerSlots m o comp) (compileExprSql d top.tableName sub toCol r st).1.refs
      (OuterNameOk m (splitFieldLookup comp.field).1 ∧ o.tableName = top.tableName ∧ OuterNameOk o comp.outerField) := by
  obtain ⟨subCol, (hs : checkFieldColumnMeta m (splitFieldLookup comp.field).1 = .ok subCol), h⟩ := Except.bind_eq_ok.mp h
  obtain ⟨outerCol, ho, h⟩ := Except.bind_eq_ok.mp h
  cases h
  obtain ⟨rfl, _⟩ := ctx
  rw [compileExprSql, compileColumns_refs]
  refine (Matches.one ?_).append (Matches.one ?_)
  · rw [← checkFieldColumnMeta_mem hs]
    simp [Slot.Meets]
  · rw [← checkFieldColumnMeta_mem ho]
    simp [Slot.Meets, eq_comm]

theorem resolveAll_matches_of {es : List UnresolvedExpr} {rs : List Expr} (ih : ∀ e ∈ es, ∀ r,
      resolveExprWithMeta m outer e = .ok r → ∀ st,
        Matches (slots m outer e) (compileExprSql d top.tableName sub toCol r st).1.refs (Aligned top m outer e))
    (hrs : resolveAll m outer es = .ok rs) (st : Params) :
    Matches (slotsAll m outer es) (Pred.refsAll (compileAll d top.tableName sub toCol rs st).1)
      (AlignedAll top m outer es) := by
  rw [resolveAll_eq_mapM, Except.mapM_eq_ok] at hrs
  rw [slotsAll_eq_flatMap]
  exact (compileAll_matches d (hrs.of_mem ih) st).congr alignedAll_iff.symm

/-- The column references of a compiled filter are the places of the filter, and each names a column of
    its model exactly when the filter is aligned. -/
theorem resolve_compile_matches {e : UnresolvedExpr} {r : Expr} (ctx : InQuery top m sub toCol outer)
    (h : resolveExprWithMeta m outer e = .ok r) (st : Params) :
    Matches (slots m outer e) (compileExprSql d top.tableName sub toCol r st).1.refs (Aligned top m outer e) := by
  induction e using UnresolvedExpr.ind generalizing m outer sub toCol r st with
  | and cs =>
    obtain ⟨rs, hrs, h⟩ := Except.bind_eq_ok.mp h
    cases h
    exact compileAll_matches d ((Except.mapM_eq_ok.mp hrs).imp fun _ _ => resolveCompare_matches d ctx) st
  | andFields cs =>
    obtain ⟨rs, hrs, h⟩ := Except.bind_eq_ok.mp h
    cases h
    exact compileAll_matches d ((Except.mapM_eq_ok.mp hrs).imp fun _ _ => resolveFieldCompare_matches d ctx) st
  | andOuter cs =>
    cases outer with
    | none => cases h
    | some o =>
      obtain ⟨rs, hrs, h⟩ := Except.bind_eq_ok.mp h
      cases h
      exact (compileAll_matches d ((Except.mapM_eq_ok.mp hrs).imp fun _ _ => resolveOuterCompare_matches d ctx)
        st).congr (by simp [Aligned])
  | all es ih =>
    obtain ⟨rs, hrs, h⟩ := Except.bind_eq_ok.mp h
    cases h
    exact resolveAll_matches_of d (fun e he r hr => ih e he ctx hr) hrs st
  | any es ih =>
    obtain ⟨rs, hrs, h⟩ := Except.bind_eq_ok.mp h
    cases h
    exact resolveAll_matches_of d (fun e he r hr => ih e he ctx hr) hrs st
  | negate e ih =>
    obtain ⟨r', hr, h⟩ := Except.bind_eq_ok.mp h
    cases h
    exact ih ctx hr st
  | exists_ n s es ih =>
    obtain ⟨rs, hrs, h⟩ := Except.bind_eq_ok.mp h
    cases h
    have inner : InQuery top s (some s.tableName) (.qualified s.tableName) (some m) := ⟨rfl, rfl⟩
    exact resolveAll_matches_of d (fun e he r hr => ih e he inner hr) hrs st

end Compile

/-! ### Correct correlation -/

/-- The SQL of a filter that resolves names, in order, the columns that its comparisons ask for, and
    each is qualified by and belongs to the right model exactly when the filter is aligned. -/
theorem references_correct_iff_aligned [Fmt] (d : Dialect) (m : ModelMeta) (e : UnresolvedExpr) (r : Expr) (st : Params)
    (h : resolveExpr m e = .ok r) :
    List.Forall₂ Slot.Meets (slots m none e) (compileExprSql d m.tableName none (fieldToCol m) r st).1.refs ↔
      Aligned m m none e :=
  (resolve_compile_matches d (show InQuery m m none (fieldToCol m) none from ⟨rfl, rfl, rfl⟩) h st).2

/-! ### Authors, books and reviews -/

def authorMeta : ModelMeta where
  structName := "Author"
  appLabel := "shop"
  tableName := "author"
  fields := [{ name := "id", columnName := "id", kind := .bigInt, primaryKey := true, auto := true }]

/-- The column of a book's title has another name than the field. -/
def bookMeta : ModelMeta where
  structName := "Book"
  appLabel := "shop"
  tableName := "book"
  fields := [{ name := "isbn", columnName := "isbn", kind := .bigInt, primaryKey := true },
    { name := "title", columnName := "book_title", kind := .text }]
  relations := [{ fieldName := "author", kind := .foreignKey, target := "Author" }]

def reviewMeta : ModelMeta where
  structName := "Review"
  appLabel := "shop"
  tableName := "review"
  fields := [{ name := "id", columnName := "id", kind := .bigInt, primaryKey := true, auto := true }]
  relations := [{ fieldName := "book", kind := .foreignKey, target := "Book" }]

/-- Authors with a book: the subquery names its own column and a column of the author. -/
theorem authorsWithBook_correct : List.Forall₂ Slot.Meets [⟨bookMeta, false⟩, ⟨authorMeta, false⟩]
    (@compileExprSql .decimal .postgres "author" none (fieldToCol authorMeta)
      (.exists_ false "book" [.and [.outerCompare "author" .eq "id"]]) ⟨[], 1⟩).1.refs :=
  (@references_correct_iff_aligned .decimal .postgres authorMeta
    (.exists_ false bookMeta [.andOuter [⟨"author", "id"⟩]]) _ ⟨[], 1⟩ (by rfl)).mpr
    (by
      have inner : OuterNameOk bookMeta "author" := .inr (by decide)
      have outer : OuterNameOk authorMeta "id" := .inr (by decide)
      have split : (splitFieldLookup "author").1 = "author" := by decide
      simp [Aligned, AlignedAll, split, inner, outer])

/-- Authors with a book of a title that has a review. The title is taken for a column, and the review's
    book is compared with a column `isbn` of the author, who has none. -/
theorem authorsWithReviewedBook_wrong : ∃ r, resolveExpr authorMeta
      (.exists_ false bookMeta [.and [⟨"title", .text "Emma"⟩],
        .exists_ false reviewMeta [.andOuter [⟨"book", "isbn"⟩]]]) = .ok r ∧
    (@compileExprSql .decimal .postgres "author" none (fieldToCol authorMeta) r ⟨[], 1⟩).1.refs =
      [.qualified "book" "title", .qualified "review" "book", .qualified "author" "isbn"] ∧
    "title" ∉ bookMeta.columns ∧ "isbn" ∉ authorMeta.columns ∧
    ¬List.Forall₂ Slot.Meets [⟨bookMeta, false⟩, ⟨reviewMeta, false⟩, ⟨bookMeta, false⟩]
      (@compileExprSql .decimal .postgres "author" none (fieldToCol authorMeta) r ⟨[], 1⟩).1.refs := by
  refine ⟨.exists_ false "book" [.and [.compare "title" .eq (.text "Emma")],
    .exists_ false "review" [.and [.outerCompare "book" .eq "isbn"]]], by rfl, by decide, by decide, by decide, ?_⟩
  rintro (_ | ⟨title, _⟩)
  exact absurd title.2 (by decide)

end Djangors.Orm
