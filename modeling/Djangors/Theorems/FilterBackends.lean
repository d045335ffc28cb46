import Djangors.Lib.Lists
import Djangors.Migrations.TypeMapping
import Djangors.Orm.PgTypes
import Djangors.Rest.Filters
import Djangors.Theorems.ListEndpoints
import Djangors.Theorems.Operators
import Djangors.Theorems.Terminals
import Djangors.Theorems.Exclude

/-! # Filter backends

What the backends of a list make of a request is a run of steps on the query set. Every step adds a filter or an ordering
of a field that is allowed, so no row comes in; but Postgres runs not every one of the filters. -/

namespace Djangors.Rest
open Db Http Orm Sql

/-! ### Parameters of a field -/

/-- What follows the last `__` of a name whose end has no underscore. -/
theorem rsplit_lookup {lookup : List Char} (h : '_' ∉ lookup) (field : List Char) :
    rsplitUnderscores (field ++ '_' :: '_' :: lookup) = some (field, lookup) := by
  have hplain : rsplitUnderscores lookup = none := by
    induction lookup with
    | nil => rfl
    | cons c cs ih =>
      rw [List.mem_cons, not_or] at h
      rw [rsplitUnderscores, ih h.2]
      exact fun _ hc _ => h.1 hc.symm
  have hone : rsplitUnderscores ('_' :: lookup) = none := by
    rw [rsplitUnderscores, hplain]
    rintro suffix - rfl
    exact h (List.mem_cons_self ..)
  induction field with
  | nil => rw [List.nil_append, rsplitUnderscores, hone]
  | cons c cs ih =>
    rw [List.cons_append, rsplitUnderscores.eq_def]
    dsimp only
    rw [ih]

theorem allowed_plain {lookup : String} (h : lookup ∈ allowedLookups) : '_' ∉ lookup.toList ∧ lookup ∈ lookupSuffixes := by
  simp only [allowedLookups, List.mem_cons, List.not_mem_nil, or_false] at h
  rcases h with rfl | rfl | rfl | rfl | rfl | rfl | rfl | rfl | rfl | rfl | rfl | rfl | rfl <;> decide

theorem toList_lookupParam (field lookup : String) :
    (lookupParam field lookup).toList = field.toList ++ '_' :: '_' :: lookup.toList := by
  simp [lookupParam]

theorem lookupOf_lookupParam {lookup : String} (h : lookup ∈ allowedLookups) (field : String) :
    FieldFilter.lookupOf (lookupParam field lookup) = lookup := by
  rw [FieldFilter.lookupOf, toList_lookupParam, rsplit_lookup (allowed_plain h).1]
  exact String.ofList_toList

theorem splitFieldLookup_lookupParam {lookup : String} (h : lookup ∈ allowedLookups) (field : String) :
    splitFieldLookup (lookupParam field lookup) = (field, lookup) := by
  have hsuffix : String.ofList lookup.toList ∈ lookupSuffixes := by
    rw [String.ofList_toList]
    exact (allowed_plain h).2
  rw [splitFieldLookup, toList_lookupParam, rsplit_lookup (allowed_plain h).1]
  dsimp only
  rw [if_pos hsuffix, String.ofList_toList, String.ofList_toList]

theorem lookupParam_ne (field lookup : String) : lookupParam field lookup ≠ field := by
  intro h
  have hlength := congrArg (fun s => s.toList.length) h
  simp only [toList_lookupParam, List.length_append, List.length_cons] at hlength
  omega

/-- A parameter of a field is its own name or a lookup of it. -/
theorem mem_candidates {field param : String} :
    param ∈ FieldFilter.candidates field ↔ param = field ∨ ∃ lookup ∈ allowedLookups, lookupParam field lookup = param := by
  rw [FieldFilter.candidates, List.mem_cons, List.mem_map]

section Comparison
variable [Parse] {m : ModelMeta} {params : QueryParams} {field param : String}

omit [Parse] in
theorem fieldExpr_candidate (h : param ∈ FieldFilter.candidates field) : FieldFilter.fieldExpr field param = some param := by
  rw [FieldFilter.fieldExpr]
  rcases mem_candidates.mp h with rfl | ⟨lookup, hlookup, rfl⟩
  · rw [if_neg (not_not_intro rfl)]
  · rw [if_pos (lookupParam_ne field lookup), lookupOf_lookupParam hlookup]
    cases hfind : allowedLookups.find? (· = lookup) with
    | none => exact absurd (decide_eq_true rfl) (List.find?_eq_none.mp hfind lookup hlookup)
    | some found =>
      rw [of_decide_eq_true (List.find?_some (p := fun l => decide (l = lookup)) hfind)]
      rfl

/-- A parameter asks for a comparison by its own name. -/
theorem comparison_eq_some (h : param ∈ FieldFilter.candidates field) {cmp : UnresolvedCompare} :
    FieldFilter.comparison m params field param = some cmp ↔
      ∃ raw v, params param = some raw ∧ FieldFilter.value m field param raw = some v ∧ cmp = ⟨param, v⟩ := by
  simp only [FieldFilter.comparison, fieldExpr_candidate h, bind, Option.bind_eq_some_iff, pure, Option.some.injEq]
  constructor
  · rintro ⟨raw, hraw, v, hv, _, rfl, rfl⟩
    exact ⟨raw, v, hraw, hv, rfl⟩
  · rintro ⟨raw, v, hraw, hv, rfl⟩
    exact ⟨raw, hraw, v, hv, _, rfl, rfl⟩

end Comparison

/-! ### Steps -/

/-- A builder call that a backend makes. -/
inductive Step where
  | filter (cmp : UnresolvedCompare)
  | search (fields : List String) (term : String)
  | order (spec : String)

def Step.apply {m : ModelMeta} (qs : QuerySet m) : Step → Except DjangorsError (QuerySet m)
  | filter cmp => orBadRequest (qs.filter (.and [cmp]))
  | search fields term => orBadRequest (qs.filterOrIcontains fields term)
  | order spec => orBadRequest (qs.order spec)

/-- The calls that a backend makes for a request. -/
def BuiltinFilter.steps [Parse] (m : ModelMeta) (params : QueryParams) : BuiltinFilter → List Step
  | field backend => backend.fields.flatMap fun field =>
      (FieldFilter.candidates field).filterMap fun param => (FieldFilter.comparison m params field param).map .filter
  | search backend =>
    (((params backend.param).filter (· ≠ "")).toList.filter fun _ => backend.fields ≠ []).map (.search backend.fields)
  | ordering backend => (params backend.param).toList.flatMap fun raw =>
      (raw.toList.splitOn ',').filterMap fun part => (backend.spec part).map .order

section Folds
variable {α β σ ε : Type}

theorem foldlM_flatMap {f : σ → β → Except ε σ} {g : α → List β} (as : List α) (s : σ) :
    (as.flatMap g).foldlM f s = as.foldlM (fun s a => (g a).foldlM f s) s := by
  induction as generalizing s with
  | nil => rfl
  | cons a as ih =>
    rw [List.flatMap_cons, List.foldlM_append, List.foldlM_cons]
    simp only [ih]

theorem foldlM_asked {f : σ → α → Except ε σ} {g : σ → β → Except ε σ} {ask : α → Option β}
    (h : ∀ s a, f s a = (ask a).elim (.ok s) (g s)) (as : List α) (s : σ) :
    as.foldlM f s = (as.filterMap ask).foldlM g s := by
  induction as generalizing s with
  | nil => rfl
  | cons a as ih =>
    rw [List.foldlM_cons, h]
    cases hask : ask a with
    | none =>
      rw [List.filterMap_cons_none hask]
      exact ih s
    | some b =>
      rw [List.filterMap_cons_some hask, List.foldlM_cons]
      simp only [ih, Option.elim_some]

end Folds

section Runs
variable {m : ModelMeta} [Parse] {params : QueryParams}

theorem BuiltinFilter.filterQueryset_eq (backend : BuiltinFilter) (qs : QuerySet m) :
    backend.filterQueryset params qs = (backend.steps m params).foldlM Step.apply qs := by
  cases backend with
  | field backend =>
    rw [filterQueryset, FieldFilter.filterQueryset, steps, foldlM_flatMap]
    congr 1
    funext qs field
    refine foldlM_asked (fun qs param => ?_) _ qs
    rw [FieldFilter.applyParam]
    cases FieldFilter.comparison m params field param <;> rfl
  | search backend =>
    rw [filterQueryset, SearchFilter.filterQueryset, steps]
    cases (params backend.param).filter (· ≠ "") with
    | none => rfl
    | some term =>
      by_cases hfields : backend.fields = []
      · simp [hfields, pure, Except.pure]
      · simp [hfields, Step.apply]
  | ordering backend =>
    rw [filterQueryset, OrderingFilter.filterQueryset, steps]
    cases params backend.param with
    | none => rfl
    | some raw =>
      rw [Option.toList_some, List.flatMap_singleton]
      refine foldlM_asked (fun qs part => ?_) _ qs
      rw [OrderingFilter.applyPart]
      cases backend.spec part <;> rfl

theorem applyBackends_eq (backends : List BuiltinFilter) (qs : QuerySet m) :
    applyBackends backends params qs = (backends.flatMap (·.steps m params)).foldlM Step.apply qs := by
  rw [applyBackends, foldlM_flatMap]
  congr 1
  funext qs backend
  exact backend.filterQueryset_eq qs

end Runs

/-! ### What steps add -/

/-- The model has the names of a step. A search takes fields alone. -/
def Step.Known (m : ModelMeta) : Step → Prop
  | filter cmp => ¬Unknown m (splitFieldLookup cmp.field).1
  | search fields _ => ∀ field ∈ fields, m.field? field ≠ none
  | order spec => ¬Unknown m (stripDash spec).1

def Step.filters : Step → List Expr
  | filter cmp => [.and [.compare (splitFieldLookup cmp.field).1 (suffixToOp (splitFieldLookup cmp.field).2) cmp.value]]
  | search fields term => [.or (fields.map fun field => .compare field .iContains (.text term))]
  | order _ => []

def Step.orderings (m : ModelMeta) : Step → List (String × Bool)
  | order spec => [(colText (fieldToCol m (stripDash spec).1), (stripDash spec).2)]
  | _ => []

/-- A query set with what steps add to it. -/
def narrowed {m : ModelMeta} (qs : QuerySet m) (steps : List Step) : QuerySet m :=
  { qs with filters := qs.filters ++ steps.flatMap Step.filters, orderBy := qs.orderBy ++ steps.flatMap (Step.orderings m) }

section Effects
variable {m : ModelMeta} {qs qs' : QuerySet m}

theorem orBadRequest_eq_ok {α : Type} {result : Except OrmError α} {a : α} : orBadRequest result = .ok a ↔ result = .ok a :=
  Except.mapError_eq_ok

theorem filter_ok {cmp : UnresolvedCompare} (h : qs.filter (.and [cmp]) = .ok qs') : qs' = narrowed qs [.filter cmp] := by
  obtain ⟨e, he, h⟩ := Except.bind_eq_ok.mp h
  obtain ⟨es, hes, he⟩ := Except.bind_eq_ok.mp he
  have hleaf : ∀ c ∈ [cmp], ∀ e, resolveCompare m c = .ok e →
      e = .compare (splitFieldLookup c.field).1 (suffixToOp (splitFieldLookup c.field).2) c.value := by
    intro c _ e hc
    obtain ⟨name, hname, hc⟩ := Except.bind_eq_ok.mp hc
    cases hc
    rw [checkFieldMeta_name hname]
    rfl
  cases Except.mapM_eq_map hes hleaf
  cases he
  cases h
  simp [narrowed, Step.filters, Step.orderings]

theorem search_isOk {fields : List String} {term : String} :
    (∃ qs', qs.filterOrIcontains fields term = .ok qs') ↔ ∀ field ∈ fields, m.field? field ≠ none := by
  have hleaf (field : String) : (∃ e, (if m.fields.any (·.name == field) then .ok (Expr.compare field .iContains (.text term))
      else .error (.fieldNotFound field m.structName) : Except OrmError Expr) = .ok e) ↔ m.field? field ≠ none := by
    rw [ModelMeta.field?, ne_eq, List.find?_eq_none]
    split
    · rename_i hany
      simpa using hany
    · rename_i hany
      simpa using hany
  rw [QuerySet.filterOrIcontains]
  refine Iff.trans ?_ (Except.mapM_isOk.trans (forall₂_congr fun field _ => hleaf field))
  constructor
  · rintro ⟨qs', h⟩
    obtain ⟨es, hes, -⟩ := Except.bind_eq_ok.mp h
    exact ⟨es, hes⟩
  · rintro ⟨es, hes⟩
    exact ⟨_, Except.bind_eq_ok.mpr ⟨es, hes, rfl⟩⟩

theorem search_ok {fields : List String} {term : String} (h : qs.filterOrIcontains fields term = .ok qs') :
    qs' = narrowed qs [.search fields term] := by
  obtain ⟨es, hes, h⟩ := Except.bind_eq_ok.mp h
  have hleaf : ∀ field ∈ fields, ∀ e, (if m.fields.any (·.name == field) then .ok (Expr.compare field .iContains (.text term))
      else .error (.fieldNotFound field m.structName) : Except OrmError Expr) = .ok e →
        e = Expr.compare field .iContains (.text term) := by
    intro field _ e he
    split at he <;> cases he
    rfl
  cases Except.mapM_eq_map hes hleaf
  cases h
  simp [narrowed, Step.filters, Step.orderings]

theorem order_ok_eq {spec : String} (h : qs.order spec = .ok qs') : qs' = narrowed qs [.order spec] := by
  rcases hspec : stripDash spec with ⟨name, descends⟩
  simp only [QuerySet.order, hspec] at h
  simp only [narrowed, Step.filters, Step.orderings, fieldToCol, hspec, List.flatMap_cons, List.flatMap_nil, List.append_nil]
  cases hfield : m.field? name with
  | some f =>
    rw [hfield] at h
    cases h
    rfl
  | none =>
    rw [hfield] at h
    cases hrelation : m.relation? name with
    | some r =>
      rw [hrelation] at h
      cases h
      rfl
    | none =>
      rw [hrelation] at h
      cases h

theorem Step.apply_isOk (step : Step) : (∃ qs', step.apply qs = .ok qs') ↔ step.Known m := by
  cases step with
  | filter cmp =>
    simp only [apply, orBadRequest_eq_ok]
    exact filter_isOk
  | search fields term =>
    simp only [apply, orBadRequest_eq_ok]
    exact search_isOk
  | order spec =>
    simp only [apply, orBadRequest_eq_ok]
    exact order_isOk qs

theorem Step.apply_ok {step : Step} (h : step.apply qs = .ok qs') : qs' = narrowed qs [step] := by
  cases step with
  | filter cmp => exact filter_ok (orBadRequest_eq_ok.mp h)
  | search fields term => exact search_ok (orBadRequest_eq_ok.mp h)
  | order spec => exact order_ok_eq (orBadRequest_eq_ok.mp h)

theorem narrowed_cons (qs : QuerySet m) (step : Step) (steps : List Step) :
    narrowed (narrowed qs [step]) steps = narrowed qs (step :: steps) := by
  simp [narrowed, List.append_assoc]

/-- The steps of a request come one behind the other. -/
theorem steps_ok {steps : List Step} (h : steps.foldlM Step.apply qs = .ok qs') : qs' = narrowed qs steps := by
  induction steps generalizing qs with
  | nil =>
    cases h
    simp [narrowed]
  | cons step steps ih =>
    obtain ⟨qs₁, h₁, h⟩ := Except.bind_eq_ok.mp h
    rw [ih h, Step.apply_ok h₁, narrowed_cons]

theorem steps_isOk {steps : List Step} : (∃ qs', steps.foldlM Step.apply qs = .ok qs') ↔ ∀ step ∈ steps, step.Known m :=
  Except.foldlM_isOk fun _ step => step.apply_isOk

end Effects

/-! ### What Postgres runs -/

/-- Whether a column of a type takes a lookup with a value. -/
def fits (t : PgType) (v : Value) : CompareOp → Bool
  | .in => (inItems v).all fun item => t.family == (bindType item.toBind).family
  | .isNull => true
  | .contains | .iContains | .startsWith | .endsWith => t.family == .text
  | .iExact | .regex | .iRegex => t.family == .text && (bindType v.toBind).family == .text
  | _ => t.family == (bindType v.toBind).family

/-- The type of the column of a field or a relation. -/
def columnOf (C : Catalog) (m : ModelMeta) (name : String) : Option PgType :=
  (C.columns m.tableName).lookup (fieldToCol m name).name

/-- A field has a column whose type takes a lookup with a value. Nothing is in an empty list, whatever the column. -/
def Takes (C : Catalog) (m : ModelMeta) (name : String) (op : CompareOp) (v : Value) : Prop :=
  op = .in ∧ inItems v = [] ∨ ∃ t, columnOf C m name = some t ∧ fits t v op = true

/-- What Postgres wants of a step. -/
def Step.Typed (C : Catalog) (m : ModelMeta) : Step → Prop
  | filter cmp => Takes C m (splitFieldLookup cmp.field).1 (suffixToOp (splitFieldLookup cmp.field).2) cmp.value
  | search fields term => ∀ field ∈ fields, Takes C m field .iContains (.text term)
  | order spec => (columnOf C m (stripDash spec).1).isSome = true

section Typing
variable {C : Catalog} {m : ModelMeta}

theorem columnType_fieldToCol (name : String) : C.columnType [m.tableName] (fieldToCol m name) = columnOf C m name := by
  rw [columnOf]
  cases hcol : fieldToCol m name with
  | bare c => simp [Catalog.columnType, ColRef.name]
  | column c => simp [Catalog.columnType, ColRef.name]
  | qualified t c =>
    rw [fieldToCol] at hcol
    split at hcol
    · cases hcol
    · split at hcol <;> cases hcol

/-- The condition of one filter with its values. -/
def conditions [Fmt] (m : ModelMeta) (es : List Expr) : List (Pred SqlOp (Option BindValue)) :=
  QuerySet.boundFilters ({ filters := es } : QuerySet m) .postgres

variable [Fmt]

theorem conditions_append (es es' : List Expr) : conditions m (es ++ es') = conditions m es ++ conditions m es' :=
  QuerySet.boundFilters_append .postgres ({ filters := es } : QuerySet m) es'

theorem conditions_nil : conditions m [] = [] := rfl

theorem conditions_and (es : List Expr) : conditions m [.and es] = [.conj (conditions m es)] := by
  simp only [conditions, QuerySet.boundFilters, QuerySet.compileFilters, compileAll, compileExprSql, List.map_cons, List.map_nil,
    Pred.map, Pred.mapAll_eq_map]

theorem conditions_or (es : List Expr) : conditions m [.or es] = [.disj (conditions m es)] := by
  simp only [conditions, QuerySet.boundFilters, QuerySet.compileFilters, compileAll, compileExprSql, List.map_cons, List.map_nil,
    Pred.map, Pred.mapAll_eq_map]

theorem forall_conditions {P : Pred SqlOp (Option BindValue) → Prop} {es : List Expr} :
    (∀ c ∈ conditions m es, P c) ↔ ∀ e ∈ es, ∀ c ∈ conditions m [e], P c := by
  induction es with
  | nil => simp [conditions_nil]
  | cons e es ih =>
    have happend := conditions_append (m := m) [e] es
    rw [List.singleton_append] at happend
    rw [happend, List.forall_mem_append, ih, List.forall_mem_cons]

omit [Fmt] in
theorem binds_of_range (vs : List Value) :
    (List.range' 1 vs.length).map (bindAt (vs.map Value.toBind)) = vs.map fun v => some v.toBind := by
  refine List.ext_getElem (by simp) fun i hi _ => ?_
  rw [List.length_map, List.length_range'] at hi
  simp [bindAt, hi]

theorem conditions_in (name : String) {v w : Value} {ws : List Value} (h : inItems v = w :: ws) :
    conditions m [.compare name .in v] = [.inList (fieldToCol m name) ((w :: ws).map fun item => some item.toBind)] := by
  have hbinds := binds_of_range (w :: ws)
  simp only [conditions, QuerySet.boundFilters, QuerySet.compileFilters, compileAll, compileExprSql, compileCompare, h,
    List.map_cons, List.map_nil, Pred.map, Params.extend, List.nil_append]
  rw [← List.map_cons, ← List.map_cons (f := fun item : Value => some item.toBind), ← hbinds]
  rfl

theorem conditions_compare (name : String) {op : CompareOp} (v : Value) (hin : op ≠ .in) (hnull : op ≠ .isNull) :
    conditions m [.compare name op v] = [.cmp (fieldToCol m name) (compareParts .postgres op v).1
      (.param (some (compareParts .postgres op v).2.toBind))] := by
  cases op with
  | «in» => exact absurd rfl hin
  | isNull => exact absurd rfl hnull
  | _ => rfl

/-- Postgres has the operator of a lookup for the types that fit. -/
theorem between_compareParts (t : PgType) (v : Value) {op : CompareOp} (hin : op ≠ .in) (hnull : op ≠ .isNull) :
    (compareParts .postgres op v).1.between t (bindType (compareParts .postgres op v).2.toBind) = fits t v op := by
  have hlike (text : String) : SqlOp.between .like t (bindType (Value.text text).toBind) = (t.family == .text) := by
    cases hfamily : t.family == .text with
    | true => rw [SqlOp.between, eq_of_beq hfamily]; rfl
    | false => rw [SqlOp.between, show (bindType (Value.text text).toBind).family = .text from rfl, hfamily, Bool.false_and]
  have hilike (text : String) : SqlOp.between .ilike t (bindType (Value.text text).toBind) = (t.family == .text) :=
    Bool.and_true _
  cases op with
  | «in» => exact absurd rfl hin
  | isNull => exact absurd rfl hnull
  | contains => exact hlike _
  | startsWith => exact hlike _
  | endsWith => exact hlike _
  | iContains => exact hilike _
  | _ => rfl

/-- A comparison is one that Postgres has when the column takes it. -/
theorem accepts_compare (name : String) (op : CompareOp) (v : Value) :
    (∀ c ∈ conditions m [.compare name op v], C.accepts [m.tableName] c = true) ↔ Takes C m name op v := by
  have hcolumn := columnType_fieldToCol (C := C) (m := m) name
  by_cases hin : op = .in
  · subst hin
    cases hitems : inItems v with
    | nil =>
      have hempty : conditions m [.compare name .in v] = [.disj []] := by
        simp [conditions, QuerySet.boundFilters, QuerySet.compileFilters, compileAll, compileExprSql, compileCompare, hitems,
          Pred.map, Pred.mapAll]
      simp [hempty, Catalog.accepts, Catalog.acceptsAll, Takes, hitems]
    | cons w ws =>
      rw [conditions_in name hitems, List.forall_mem_singleton, Catalog.accepts, hcolumn, Takes, hitems]
      cases columnOf C m name with
      | none => simp
      | some t => simp [Catalog.compared, SqlOp.between, fits, hitems, List.all_map, Function.comp_def]
  · by_cases hnull : op = .isNull
    · subst hnull
      have hcond : conditions m [.compare name .isNull v] = [.isNull (fieldToCol m name) (isFalse v)] := rfl
      rw [hcond, List.forall_mem_singleton, Catalog.accepts, hcolumn, Takes]
      cases columnOf C m name <;> simp [fits]
    · rw [conditions_compare name v hin hnull, List.forall_mem_singleton, Catalog.accepts, hcolumn, Catalog.operandType,
        Option.map_some, Takes]
      cases columnOf C m name with
      | none => simp [Catalog.compared, hin]
      | some t => simp [Catalog.compared, hin, between_compareParts t v hin hnull]

omit [Fmt] in
theorem colText_column_inj {c c' : String} (h : colText (.column c) = colText (.column c')) : c = c' := by
  have hchars := congrArg String.toList h
  simp only [colText, String.toList_append] at hchars
  exact String.toList_inj.mp (List.append_cancel_left (List.append_cancel_right hchars))

omit [Fmt] in
theorem orders_column {name : String} (known : ¬Unknown m name) :
    C.orders m.tableName (colText (fieldToCol m name)) = (columnOf C m name).isSome := by
  obtain ⟨field, hfield⟩ := checkFieldMeta_isOk.mpr known
  rw [columnOf, column_of_known hfield, Bool.eq_iff_iff, Catalog.orders, List.any_eq_true, List.lookup_isSome_iff]
  constructor
  · rintro ⟨column, hmem, htext⟩
    have hname := colText_column_inj (eq_of_beq htext)
    exact ⟨column, hmem, by simp [ColRef.name, hname]⟩
  · rintro ⟨column, hmem, hname⟩
    refine ⟨column, hmem, ?_⟩
    rw [← eq_of_beq hname]
    exact beq_self_eq_true _

/-- What a known step adds is what Postgres runs when it is typed. -/
theorem accepts_step {step : Step} (known : step.Known m) :
    (∀ c ∈ conditions m step.filters, C.accepts [m.tableName] c = true) ∧
      (∀ o ∈ step.orderings m, C.orders m.tableName o.1 = true) ↔ step.Typed C m := by
  cases step with
  | filter cmp =>
    rw [Step.filters, conditions_and, List.forall_mem_singleton, Catalog.accepts, Catalog.acceptsAll_iff, accepts_compare]
    exact ⟨fun h => h.1, fun h => ⟨h, fun o ho => absurd ho List.not_mem_nil⟩⟩
  | search fields term =>
    rw [Step.filters, conditions_or, List.forall_mem_singleton, Catalog.accepts, Catalog.acceptsAll_iff, forall_conditions,
      List.forall_mem_map]
    simp only [accepts_compare]
    exact ⟨fun h => h.1, fun h => ⟨h, fun o ho => absurd ho List.not_mem_nil⟩⟩
  | order spec =>
    rw [Step.orderings, List.forall_mem_singleton, orders_column known]
    exact ⟨fun h => h.2, fun h => ⟨fun c hc => absurd hc List.not_mem_nil, h⟩⟩

omit [Fmt] in
theorem acceptsWhere_ofFilters {t : String} {cs : List (Pred SqlOp (Option BindValue))} :
    C.acceptsWhere t (.ofFilters cs) = true ↔ ∀ c ∈ cs, C.accepts [t] c = true := by
  cases cs with
  | nil => simp [Where.ofFilters, Catalog.acceptsWhere]
  | cons c cs => rw [Where.ofFilters, Catalog.acceptsWhere, Catalog.accepts, Catalog.acceptsAll_iff]

omit [Fmt] in
/-- A clause that Postgres takes stays one with conditions that it takes. -/
theorem acceptsWhere_append {t head : String} {cs more : List (Pred SqlOp (Option BindValue))} {sc : Option String}
    (h : C.acceptsWhere t (.withSearch head cs sc) = true) :
    C.acceptsWhere t (.withSearch head (cs ++ more) sc) = true ↔ ∀ c ∈ more, C.accepts [t] c = true := by
  cases sc with
  | none =>
    rw [Where.withSearch, acceptsWhere_ofFilters] at h ⊢
    rw [List.forall_mem_append]
    exact and_iff_right h
  | some sc =>
    rw [Where.withSearch] at h
    split at h
    · cases h
    · rename_i hnot
      have hmore : ¬(cs ++ more = [] ∧ containsWhere head = true) := fun hempty =>
        hnot ⟨(List.append_eq_nil_iff.mp hempty.1).1, hempty.2⟩
      rw [Catalog.acceptsWhere, Catalog.accepts, Catalog.acceptsAll_iff, List.forall_mem_append] at h
      rw [Where.withSearch, if_neg hmore, Catalog.acceptsWhere, Catalog.accepts, Catalog.acceptsAll_iff, List.forall_mem_append,
        List.forall_mem_append]
      exact ⟨fun hall => hall.1.2, fun hall => ⟨⟨h.1, hall⟩, h.2⟩⟩

omit [Fmt] in
theorem orderSource_own {qs : QuerySet m} (h : qs.orderBy ≠ []) : qs.orderSource true = qs.orderBy := by
  rw [QuerySet.orderSource, if_neg (by decide), if_pos h]

/-- Postgres runs a narrowed query set when it ran it before and the steps are typed. -/
theorem executes_narrowed {qs : QuerySet m} (h : C.executes (qs.select .postgres) = true) {steps : List Step}
    (known : ∀ step ∈ steps, step.Known m) :
    C.executes ((narrowed qs steps).select .postgres) = true ↔ ∀ step ∈ steps, step.Typed C m := by
  rw [Catalog.executes, Bool.and_eq_true, List.all_eq_true] at h
  have hwhere : C.acceptsWhere m.tableName ((narrowed qs steps).select .postgres).bound = true ↔
      ∀ step ∈ steps, ∀ c ∈ conditions m step.filters, C.accepts [m.tableName] c = true := by
    have hbound : (narrowed qs steps).boundFilters .postgres =
        qs.boundFilters .postgres ++ conditions m (steps.flatMap Step.filters) := QuerySet.boundFilters_append .postgres qs _
    have hselect := h.1
    rw [qs.select_bound] at hselect
    rw [QuerySet.select_bound, hbound]
    refine (acceptsWhere_append hselect).trans (forall_conditions.trans ?_)
    simp only [List.forall_mem_flatMap]
    exact forall₂_congr fun step _ => forall_conditions.symm
  have horder : (∀ o ∈ ((narrowed qs steps).select .postgres).order, C.orders m.tableName o.1 = true) ↔
      ∀ step ∈ steps, ∀ o ∈ step.orderings m, C.orders m.tableName o.1 = true := by
    have hbefore : ∀ o ∈ qs.orderSource true, C.orders m.tableName o.1 = true := h.2
    have hsource : ((narrowed qs steps).select .postgres).order = (narrowed qs steps).orderSource true := rfl
    rw [hsource, ← List.forall_mem_flatMap]
    by_cases hadded : steps.flatMap (Step.orderings m) = []
    · have hsame : (narrowed qs steps).orderSource true = qs.orderSource true := by
        simp only [QuerySet.orderSource, narrowed, hadded, List.append_nil]
      rw [hsame, hadded]
      exact iff_of_true hbefore fun o ho => absurd ho List.not_mem_nil
    · have hne : (narrowed qs steps).orderBy ≠ [] := fun h => hadded (List.append_eq_nil_iff.mp h).2
      rw [orderSource_own hne]
      by_cases hown : qs.orderBy = []
      · have hsame : (narrowed qs steps).orderBy = steps.flatMap (Step.orderings m) := by simp [narrowed, hown]
        rw [hsame]
      · rw [orderSource_own hown] at hbefore
        exact List.forall_mem_append.trans (and_iff_right hbefore)
  have hexecutes : C.executes ((narrowed qs steps).select .postgres) = true ↔
      C.acceptsWhere m.tableName ((narrowed qs steps).select .postgres).bound = true ∧
        ∀ o ∈ ((narrowed qs steps).select .postgres).order, C.orders m.tableName o.1 = true := by
    rw [Catalog.executes, Bool.and_eq_true, List.all_eq_true]
    rfl
  rw [hexecutes, hwhere, horder, ← forall₂_and]
  exact forall₂_congr fun step hstep => accepts_step (known step hstep)

/-- Without a window, steps take rows away and put none in place. -/
theorem narrowed_subperm {S : Server} {db : Tables Cell} (hdialect : S.dialect = .postgres) {qs : QuerySet m}
    (hlimit : qs.limit = none) (hoffset : qs.offset = none) {steps : List Step} {rows rows' : List (Row Cell)}
    (hrows : S.fetch db (qs.select .postgres) = .ok rows)
    (hrows' : S.fetch db ((narrowed qs steps).select .postgres) = .ok rows') : rows'.Subperm rows := by
  have hperm := Server.fetch_perm hlimit hoffset hrows
  have hperm' := Server.fetch_perm (s := (narrowed qs steps).select .postgres) hlimit hoffset hrows'
  have hbound := Server.fetch_bound hrows
  have hbound' := Server.fetch_bound hrows'
  rw [← hdialect] at hperm hperm' hbound hbound'
  have hsub : ((db m.tableName).filter
        (S.selects db m.tableName ((narrowed qs steps).select S.dialect).bound)).Sublist
      ((db m.tableName).filter (S.selects db m.tableName (qs.select S.dialect).bound)) := by
    refine List.monotone_filter_right _ fun r hr => ?_
    rw [selects_eq_selected hbound'] at hr
    rw [selects_eq_selected hbound]
    have hkeeps : (narrowed qs steps).keeps S db r =
        (qs.keeps S db r && QuerySet.keeps S db ({ filters := steps.flatMap Step.filters } : QuerySet m) r) := by
      rw [QuerySet.keeps, QuerySet.keeps, QuerySet.keeps, ← List.all_append, ← QuerySet.boundFilters_append]
      rfl
    rw [QuerySet.selected, hkeeps] at hr
    simp only [Bool.and_eq_true] at hr
    exact Bool.and_eq_true_iff.mpr ⟨hr.1.1, hr.2⟩
  exact hperm'.subperm.trans (hsub.subperm.trans hperm.symm.subperm)

end Typing

/-! ### Requests -/

/-- The parameters that a backend may read. -/
def BuiltinFilter.permitted : BuiltinFilter → List String
  | field backend => backend.fields.flatMap FieldFilter.candidates
  | search backend => [backend.param]
  | ordering backend => [backend.param]

section Requests
variable [Parse] (m : ModelMeta)

/-- A text is not a value of a field's parameter: no element of a list parses, or it is no truth value, or it does not
    parse as the field's type. -/
def FieldFilter.Fails (base param raw : String) : Prop :=
  (param = lookupParam base "in" ∧ items raw ≠ [] ∧ ∀ item ∈ items raw, parseTyped m base item = none) ∨
    (param = lookupParam base "isnull" ∧ raw ∉ ["true", "1", "false", "0"]) ∨
    value m base param raw = none

/-- A text is not a value of a parameter for any reading of it. -/
def BuiltinFilter.Fails (param raw : String) : BuiltinFilter → Prop
  | field backend => ∀ base ∈ backend.fields, param ∈ FieldFilter.candidates base → FieldFilter.Fails m base param raw
  | search backend => backend.param ≠ param
  | ordering backend => backend.param = param → ∀ part ∈ raw.toList.splitOn ',', backend.spec part = none

def Unparsable (backends : List BuiltinFilter) (params : QueryParams) (param : String) : Prop :=
  ∃ raw, params param = some raw ∧ ∀ backend ∈ backends, backend.Fails m param raw

end Requests

/-- The request without a parameter. -/
def withoutParam (params : QueryParams) (param : String) : QueryParams := fun p => if p = param then none else params p

/-- Backends narrow a query set, break nothing and obey what they allow. -/
structure OnlyNarrows [Fmt] [Parse] (C : Catalog) {m : ModelMeta} (backends : List BuiltinFilter) (params : QueryParams)
    (qs : QuerySet m) : Prop where
  succeeds : ∃ qs', applyBackends backends params qs = .ok qs'
  executes : ∀ qs', applyBackends backends params qs = .ok qs' → C.executes (qs.select .postgres) = true →
    C.executes (qs'.select .postgres) = true
  narrows : ∀ qs', applyBackends backends params qs = .ok qs' → ∀ (S : Server) (db : Tables Cell), S.dialect = .postgres →
    ∀ rows rows', S.fetch db (qs.select .postgres) = .ok rows → S.fetch db (qs'.select .postgres) = .ok rows' →
      rows'.Subperm rows
  allowlist : ∀ params', (∀ backend ∈ backends, ∀ param ∈ backend.permitted, params' param = params param) →
    applyBackends backends params' qs = applyBackends backends params qs
  unparsable : ∀ param, Unparsable m backends params param →
    applyBackends backends (withoutParam params param) qs = applyBackends backends params qs

/-- What a request must be for its backends: a value that is given must go to a column that takes it, and only for lookups
    other than `in` and `isnull` may a text fail to parse. -/
structure Answerable [Fmt] [Parse] (C : Catalog) {m : ModelMeta} (backends : List BuiltinFilter) (params : QueryParams)
    (qs : QuerySet m) : Prop where
  fields : ∀ backend, .field backend ∈ backends → ∀ base ∈ backend.fields, ∀ param ∈ FieldFilter.candidates base,
    ∀ raw v, params param = some raw → FieldFilter.value m base param raw = some v →
      ¬Unknown m (splitFieldLookup param).1 ∧ (C.executes (qs.select .postgres) = true →
        Takes C m (splitFieldLookup param).1 (suffixToOp (splitFieldLookup param).2) v)
  search : ∀ backend, .search backend ∈ backends → ∀ term, params backend.param = some term → term ≠ "" →
    ∀ field ∈ backend.fields, m.field? field ≠ none ∧
      (C.executes (qs.select .postgres) = true → Takes C m field .iContains (.text term))
  ordering : ∀ backend, .ordering backend ∈ backends → ∀ raw, params backend.param = some raw →
    ∀ part ∈ raw.toList.splitOn ',', ∀ spec, backend.spec part = some spec → ¬Unknown m (stripDash spec).1 ∧
      (C.executes (qs.select .postgres) = true → (columnOf C m (stripDash spec).1).isSome = true)
  parsed : ∀ param, Unparsable m backends params param → ∀ backend, .field backend ∈ backends → ∀ base ∈ backend.fields,
    param ≠ lookupParam base "in" ∧ param ≠ lookupParam base "isnull"

theorem withoutParam_self (params : QueryParams) (param : String) : withoutParam params param param = none := if_pos rfl

theorem withoutParam_of_ne {params : QueryParams} {param other : String} (h : other ≠ param) :
    withoutParam params param other = params other := if_neg h

section Steps
variable [Parse] {m : ModelMeta} {params params' : QueryParams} {param raw : String}

theorem mem_steps_field {backend : FieldFilter} {step : Step} : step ∈ (BuiltinFilter.field backend).steps m params ↔
    ∃ base ∈ backend.fields, ∃ param ∈ FieldFilter.candidates base, ∃ raw v, params param = some raw ∧
      FieldFilter.value m base param raw = some v ∧ step = .filter ⟨param, v⟩ := by
  simp only [BuiltinFilter.steps, List.mem_flatMap, List.mem_filterMap, Option.map_eq_some_iff]
  refine exists_congr fun base => and_congr_right fun _ => exists_congr fun param => and_congr_right fun hparam => ?_
  simp only [comparison_eq_some hparam]
  constructor
  · rintro ⟨_, ⟨raw, v, hraw, hv, rfl⟩, rfl⟩
    exact ⟨raw, v, hraw, hv, rfl⟩
  · rintro ⟨raw, v, hraw, hv, rfl⟩
    exact ⟨_, ⟨raw, v, hraw, hv, rfl⟩, rfl⟩

theorem mem_steps_search {backend : SearchFilter} {step : Step} : step ∈ (BuiltinFilter.search backend).steps m params ↔
    ∃ term, params backend.param = some term ∧ term ≠ "" ∧ backend.fields ≠ [] ∧ step = .search backend.fields term := by
  simp only [BuiltinFilter.steps, List.mem_map, List.mem_filter, Option.mem_toList, Option.filter_eq_some_iff,
    decide_eq_true_eq, and_assoc, eq_comm (b := step)]

theorem mem_steps_ordering {backend : OrderingFilter} {step : Step} :
    step ∈ (BuiltinFilter.ordering backend).steps m params ↔ ∃ raw, params backend.param = some raw ∧
      ∃ part ∈ raw.toList.splitOn ',', ∃ spec, backend.spec part = some spec ∧ step = .order spec := by
  simp only [BuiltinFilter.steps, List.mem_flatMap, List.mem_filterMap, Option.mem_toList, Option.map_eq_some_iff,
    eq_comm (b := step)]

theorem steps_congr {backend : BuiltinFilter} (h : ∀ param ∈ backend.permitted, params' param = params param) :
    backend.steps m params' = backend.steps m params := by
  cases backend with
  | field backend =>
    refine List.flatMap_congr fun base hbase => List.filterMap_congr fun param hparam => ?_
    rw [FieldFilter.comparison, FieldFilter.comparison, h param (List.mem_flatMap.mpr ⟨base, hbase, hparam⟩)]
  | search backend => rw [BuiltinFilter.steps, BuiltinFilter.steps, h backend.param (List.mem_singleton.mpr rfl)]
  | ordering backend => rw [BuiltinFilter.steps, BuiltinFilter.steps, h backend.param (List.mem_singleton.mpr rfl)]

theorem comparison_without (base other : String) :
    FieldFilter.comparison m (withoutParam params param) base other =
      if other = param then none else FieldFilter.comparison m params base other := by
  by_cases h : other = param
  · subst h
    rw [if_pos rfl, FieldFilter.comparison, withoutParam_self]
    rfl
  · rw [if_neg h, FieldFilter.comparison, withoutParam_of_ne h]
    rfl

/-- What is not a value of a search or of an ordering is left out. -/
theorem steps_without_others {backend : BuiltinFilter} (hraw : params param = some raw) (fails : backend.Fails m param raw)
    (hfield : ∀ fields, backend ≠ .field fields) : backend.steps m (withoutParam params param) = backend.steps m params := by
  cases backend with
  | field backend => exact absurd rfl (hfield backend)
  | search backend => exact steps_congr fun other hother => by rw [List.mem_singleton.mp hother, withoutParam_of_ne fails]
  | ordering backend =>
    by_cases hparam : backend.param = param
    · have hnone : (BuiltinFilter.ordering backend).steps m params = [] := by
        refine List.eq_nil_iff_forall_not_mem.mpr fun step hstep => ?_
        obtain ⟨raw', hraw', part, hpart, spec, hspec, -⟩ := mem_steps_ordering.mp hstep
        rw [hparam, hraw] at hraw'
        cases hraw'
        rw [fails hparam part hpart] at hspec
        cases hspec
      rw [hnone, BuiltinFilter.steps, hparam, withoutParam_self]
      rfl
    · exact steps_congr fun other hother => by rw [List.mem_singleton.mp hother, withoutParam_of_ne hparam]

/-- Without a parameter there are fewer steps. -/
theorem steps_sublist {backend : BuiltinFilter} (hraw : params param = some raw) (fails : backend.Fails m param raw) :
    (backend.steps m (withoutParam params param)).Sublist (backend.steps m params) := by
  cases backend with
  | field backend =>
    refine List.Sublist.flatMap_right _ fun base _ => ?_
    rw [List.filterMap_eq_flatMap_toList, List.filterMap_eq_flatMap_toList]
    refine List.Sublist.flatMap_right _ fun other _ => ?_
    rw [comparison_without]
    split
    · exact List.nil_sublist _
    · exact List.Sublist.refl _
  | search backend => rw [steps_without_others hraw fails (by rintro _ ⟨⟩)]
  | ordering backend => rw [steps_without_others hraw fails (by rintro _ ⟨⟩)]

/-- Where no list and no `isnull` fails to parse, a text that fails is left out. -/
theorem steps_without {backend : BuiltinFilter} (hraw : params param = some raw) (fails : backend.Fails m param raw)
    (parsed : ∀ fields, backend = .field fields → ∀ base ∈ fields.fields,
      param ≠ lookupParam base "in" ∧ param ≠ lookupParam base "isnull") :
    backend.steps m (withoutParam params param) = backend.steps m params := by
  cases backend with
  | field backend =>
    refine List.flatMap_congr fun base hbase => List.filterMap_congr fun other hother => ?_
    rw [comparison_without]
    by_cases h : other = param
    · subst h
      obtain ⟨hin, hnull⟩ := parsed backend rfl base hbase
      rw [if_pos rfl]
      rcases fails base hbase hother with ⟨heq, -⟩ | ⟨heq, -⟩ | hvalue
      · exact absurd heq hin
      · exact absurd heq hnull
      · simp [FieldFilter.comparison, hraw, hvalue]
    · rw [if_neg h]
  | search backend => exact steps_without_others hraw fails (by rintro _ ⟨⟩)
  | ordering backend => exact steps_without_others hraw fails (by rintro _ ⟨⟩)

omit [Parse] in
/-- A step is one filter or one ordering. -/
theorem narrowed_count (qs : QuerySet m) (steps : List Step) :
    (narrowed qs steps).filters.length + (narrowed qs steps).orderBy.length =
      qs.filters.length + qs.orderBy.length + steps.length := by
  induction steps generalizing qs with
  | nil => simp [narrowed]
  | cons step steps ih =>
    rw [← narrowed_cons, ih, List.length_cons]
    cases step <;> simp [narrowed, Step.filters, Step.orderings] <;> omega

/-- What every step must be is what every parameter that is given must be. -/
theorem answerable_steps [Fmt] (C : Catalog) (qs : QuerySet m) {backends : List BuiltinFilter} :
    (∀ step ∈ backends.flatMap (·.steps m params), step.Known m ∧ (C.executes (qs.select .postgres) = true → step.Typed C m)) ↔
      (∀ backend, .field backend ∈ backends → ∀ base ∈ backend.fields, ∀ param ∈ FieldFilter.candidates base,
        ∀ raw v, params param = some raw → FieldFilter.value m base param raw = some v →
          ¬Unknown m (splitFieldLookup param).1 ∧ (C.executes (qs.select .postgres) = true →
            Takes C m (splitFieldLookup param).1 (suffixToOp (splitFieldLookup param).2) v)) ∧
      (∀ backend, .search backend ∈ backends → ∀ term, params backend.param = some term → term ≠ "" →
        ∀ field ∈ backend.fields, m.field? field ≠ none ∧
          (C.executes (qs.select .postgres) = true → Takes C m field .iContains (.text term))) ∧
      ∀ backend, .ordering backend ∈ backends → ∀ raw, params backend.param = some raw →
        ∀ part ∈ raw.toList.splitOn ',', ∀ spec, backend.spec part = some spec → ¬Unknown m (stripDash spec).1 ∧
          (C.executes (qs.select .postgres) = true → (columnOf C m (stripDash spec).1).isSome = true) := by
  rw [List.forall_mem_flatMap]
  constructor
  · intro h
    refine ⟨fun backend hbackend base hbase param hparam raw v hraw hv => ?_,
      fun backend hbackend term hterm hne field hfield => ?_, fun backend hbackend raw hraw part hpart spec hspec => ?_⟩
    · exact h _ hbackend _ (mem_steps_field.mpr ⟨base, hbase, param, hparam, raw, v, hraw, hv, rfl⟩)
    · obtain ⟨known, typed⟩ := h _ hbackend _ (mem_steps_search.mpr ⟨term, hterm, hne, List.ne_nil_of_mem hfield, rfl⟩)
      exact ⟨known field hfield, fun runs => typed runs field hfield⟩
    · exact h _ hbackend _ (mem_steps_ordering.mpr ⟨raw, hraw, part, hpart, spec, hspec, rfl⟩)
  · rintro ⟨hfields, hsearch, hordering⟩ backend hbackend step hstep
    cases backend with
    | field backend =>
      obtain ⟨base, hbase, param, hparam, raw, v, hraw, hv, rfl⟩ := mem_steps_field.mp hstep
      exact hfields backend hbackend base hbase param hparam raw v hraw hv
    | search backend =>
      obtain ⟨term, hterm, hne, -, rfl⟩ := mem_steps_search.mp hstep
      have hall := hsearch backend hbackend term hterm hne
      exact ⟨fun field hfield => (hall field hfield).1, fun runs field hfield => (hall field hfield).2 runs⟩
    | ordering backend =>
      obtain ⟨raw, hraw, part, hpart, spec, hspec, rfl⟩ := mem_steps_ordering.mp hstep
      exact hordering backend hbackend raw hraw part hpart spec hspec

end Steps

/-- The kinds whose columns take a text lookup. -/
def Searched : FieldKind → Prop
  | .char | .text | .fileField | .email | .url | .slug => True
  | _ => False

/-- The kinds whose columns compare with the value that `parse_typed` reads. The others are read as texts. -/
def Compared : FieldKind → Prop
  | .decimal _ _ | .date | .time | .duration | .uuid | .ip | .binary | .json => False
  | _ => True

section Kinds
variable {C : Catalog} {m : ModelMeta} {name : String} {f : FieldMeta}

/-- The column of a field has the type that a migration gives it. -/
theorem sqlTypeFor_pgType {kind : FieldKind} {maxLength : Option Nat} {auto : Bool} {t : String}
    (h : Migrations.sqlTypeFor kind maxLength auto name .postgres = .ok t) :
    String.ofList (t.toList.takeWhile (· ≠ '(')) ∈ kind.pgType.names := by
  have hvarchar (n : Nat) :
      String.ofList (("VARCHAR(" ++ toString n ++ ")").toList.takeWhile (· ≠ '(')) ∈ PgType.varchar.names := by
    simp [PgType.names]
  have hnumeric (n k : Nat) :
      String.ofList (("NUMERIC(" ++ toString n ++ ", " ++ toString k ++ ")").toList.takeWhile (· ≠ '(')) ∈
        PgType.numeric.names := by
    simp [PgType.names]
  cases kind with
  | char | email | url | slug =>
    cases maxLength with
    | none => cases h
    | some n =>
      cases h
      exact hvarchar n
  | integer | bigInt => cases auto <;> cases h <;> simp [FieldKind.pgType, PgType.names]
  | decimal n k =>
    cases h
    exact hnumeric n k
  | _ =>
    cases h
    simp [FieldKind.pgType, PgType.names]

theorem columnOf_field {keys : RelationMeta → FieldKind} (table : C.columns m.tableName = m.columnTypes keys)
    (distinct : (m.fields.map (·.columnName)).Nodup) (hf : m.field? name = some f) : columnOf C m name = some f.kind.pgType := by
  have hmem : f ∈ m.fields := List.mem_of_find?_eq_some hf
  have hcolumn : (fieldToCol m name).name = f.columnName := by rw [fieldToCol, hf]; rfl
  have hlookup : (m.fields.map fun f => (f.columnName, f.kind.pgType)).lookup f.columnName = some f.kind.pgType := by
    refine List.lookup_of_mem ?_ (List.mem_map_of_mem (f := fun f : FieldMeta => (f.columnName, f.kind.pgType)) hmem)
    rwa [List.map_map]
  rw [columnOf, table, ModelMeta.columnTypes, hcolumn, List.lookup_append, hlookup]
  rfl

/-- A text lookup is for the columns of texts. -/
theorem takes_text (hcol : columnOf C m name = some f.kind.pgType) {lookup : String} (h : lookup ∈ textLookups) (raw : String) :
    Takes C m name (suffixToOp lookup) (.text raw) ↔ Searched f.kind := by
  have hfits (op : CompareOp) (hop : op.isText = true ∨ op = .iExact) :
      Takes C m name op (.text raw) ↔ f.kind.pgType.family = .text := by
    cases op <;> simp [CompareOp.isText] at hop <;> simp [Takes, hcol, fits, bindType, Value.toBind, PgType.family]
  have hkind : f.kind.pgType.family = .text ↔ Searched f.kind := by
    cases f.kind <;> simp [FieldKind.pgType, PgType.family, Searched]
  rw [← hkind]
  refine hfits _ ?_
  simp only [textLookups, List.mem_cons, List.not_mem_nil, or_false] at h
  rcases h with rfl | rfl | rfl | rfl | rfl <;> decide

/-- A comparison is for the kinds whose values are read as such. -/
theorem takes_parsed [Parse] (hf : m.field? name = some f) (hcol : columnOf C m name = some f.kind.pgType) {lookup : String}
    (h : lookup ∈ ["eq", "ne", "lt", "lte", "gt", "gte"]) {raw : String} {v : Value} (hv : parseTyped m name raw = some v) :
    Takes C m name (suffixToOp lookup) v ↔ Compared f.kind := by
  have hvalue : f.kind.pgType.family = (bindType v.toBind).family ↔ Compared f.kind := by
    simp only [parseTyped, parseFilterValue, hf] at hv
    cases hkind : f.kind <;> rw [hkind] at hv
    case integer | bigInt =>
      obtain ⟨n, -, rfl⟩ := Option.map_eq_some_iff.mp hv
      exact iff_of_true rfl trivial
    case float =>
      obtain ⟨x, -, rfl⟩ := Option.map_eq_some_iff.mp hv
      exact iff_of_true rfl trivial
    case dateTime =>
      obtain ⟨t, -, rfl⟩ := Option.map_eq_some_iff.mp hv
      exact iff_of_true rfl trivial
    case boolean =>
      dsimp only at hv
      split at hv
      · cases hv
        exact iff_of_true rfl trivial
      · split at hv
        · cases hv
          exact iff_of_true rfl trivial
        · cases hv
    all_goals cases hv; simp [FieldKind.pgType, PgType.family, bindType, Value.toBind, Compared]
  simp only [List.mem_cons, List.not_mem_nil, or_false] at h
  rw [← hvalue]
  rcases h with rfl | rfl | rfl | rfl | rfl | rfl <;> simp [Takes, suffixToOp, hcol, fits]

end Kinds

/-! ### View sets -/

/-- A backend as a view set holds it. -/
def BuiltinFilter.toBackend [Parse] (m : ModelMeta) (backend : BuiltinFilter) : FilterBackend m where
  filterQueryset params qs := backend.filterQueryset params qs
  narrows params qs qs' h := by
    rw [backend.filterQueryset_eq] at h
    exact ⟨_, _, steps_ok h⟩

/-- A view set applies its backends as `apply_backends` does. -/
theorem foldlM_toBackend [Parse] {m : ModelMeta} (backends : List BuiltinFilter) (params : QueryParams) (qs : QuerySet m) :
    (backends.map (·.toBackend m)).foldlM (fun qs backend => backend.filterQueryset params qs) qs =
      applyBackends backends params qs := List.foldlM_map

/-! ### Articles -/

section Articles
attribute [local instance] Wire.integers Fmt.decimal

/-- An article with a title and the number of its views. -/
def articleMeta : ModelMeta where
  structName := "Article"
  appLabel := "blog"
  tableName := "blog_article"
  fields := [{ name := "id", columnName := "id", kind := .bigInt, primaryKey := true, auto := true },
    { name := "title", columnName := "title", kind := .char, maxLength := some 200 },
    { name := "view_count", columnName := "view_count", kind := .integer }]

def articleCatalog : Catalog where
  columns t := if t = "blog_article" then articleMeta.columnTypes fun _ => .bigInt else []
  raw _ := true

def articleBackends : List BuiltinFilter :=
  [.field ⟨["view_count"]⟩, .search { fields := ["title"] }, .ordering { fields := ["view_count"] }]

/-- A request with one parameter. -/
def oneParam (param raw : String) : QueryParams := fun p => if p = param then some raw else none

theorem oneParam_eq_some {param raw param' raw' : String} (h : oneParam param raw param' = some raw') :
    param' = param ∧ raw' = raw := by
  rw [oneParam] at h
  split at h
  · cases h
    exact ⟨‹_›, rfl⟩
  · cases h

/-- Two articles with five views and with seven. -/
def twoArticles : Tables Cell := fun t =>
  if t = "blog_article" then
    [[("id", .i64 1), ("title", .text "Rust"), ("view_count", .i64 5)],
      [("id", .i64 2), ("title", .text "Lean"), ("view_count", .i64 7)]]
  else []

end Articles

end Djangors.Rest
