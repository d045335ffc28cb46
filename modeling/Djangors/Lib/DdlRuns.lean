import Djangors.Lib.Ddl

/-! # Runs of statements

What a statement that the server accepts does to the schema, what every run keeps, and what is left when
the relations a list of statements created are dropped again. -/

namespace Ddl
variable {R : Rules} {s s' : Schema} {l : List Statement}

theorem run_cons (st : Statement) : R.run s (st :: l) = (R.exec s st).bind (R.run · l) := rfl

theorem run_append (l l' : List Statement) : R.run s (l ++ l') = (R.run s l).bind (R.run · l') :=
  List.foldlM_append ..

theorem columns?_eq_some {t : String} {cols : Columns} :
    s.columns? t = some cols ↔ ∃ checks, s.lookup t = some (.table cols checks) := by
  unfold Schema.columns?
  cases h : s.lookup t with
  | none => simp
  | some r => cases r <;> simp

theorem column?_eq_some {t c : String} {col : Column} :
    s.column? t c = some col ↔ ∃ cols checks, s.lookup t = some (.table cols checks) ∧ cols.lookup c = some col := by
  simp only [Schema.column?, Option.bind_eq_some_iff, columns?_eq_some]
  exact ⟨fun ⟨cols, ⟨checks, h⟩, hc⟩ => ⟨cols, checks, h, hc⟩, fun ⟨cols, checks, h, hc⟩ => ⟨cols, ⟨checks, h⟩, hc⟩⟩

theorem someReference_iff {p : String → String → Column → Reference → Bool} :
    s.SomeReference p ↔ ∃ t c col r, s.column? t c = some col ∧ col.references = some r ∧ p t c col r = true := by
  have inColumns : ∀ (t : String) (cols : Columns), (∃ f ∈ cols.entries, f.2.references.any (p t f.1 f.2) = true) ↔
      ∃ c col, cols.lookup c = some col ∧ col.references.any (p t c col) = true := fun t cols =>
    Finmap.exists_entry (p := fun c (col : Column) => col.references.any (p t c col) = true)
  have inSchema : s.SomeReference p ↔ ∃ t rel, s.lookup t = some rel ∧
      ∃ f ∈ rel.columns.entries, f.2.references.any (p t f.1 f.2) = true :=
    Finmap.exists_entry (p := fun t (rel : Relation) => ∃ f ∈ rel.columns.entries, f.2.references.any (p t f.1 f.2) = true)
  simp only [inSchema, inColumns]
  simp only [Option.any_eq_true, column?_eq_some]
  constructor
  · rintro ⟨t, rel, hrel, c, col, hcol, r, hr, hp⟩
    cases rel with
    | table cols checks => exact ⟨t, c, col, r, ⟨cols, checks, hrel, hcol⟩, hr, hp⟩
    | index u cs => cases hcol
  · rintro ⟨t, c, col, r, ⟨cols, checks, hrel, hcol⟩, hr, hp⟩
    exact ⟨t, _, hrel, c, col, hcol, r, hr, hp⟩

theorem fits_iff {c : Column} :
    s.fits c = true ↔ ∀ r, c.references = some r →
      ∃ k, s.column? r.table r.column = some k ∧ (k.primaryKey || k.unique) = true ∧ k.type = c.type := by
  unfold Schema.fits
  cases hr : c.references with
  | none => simp
  | some r =>
    cases hk : s.column? r.table r.column with
    | none => simp [hk]
    | some k => simp [hk]

/-! ### What each statement does -/

theorem exec_createTable {name : String} {cols : List Entry} {checks : List String} (fresh : name ∉ s) :
    R.exec s (.createTable name cols checks) = some s' ↔
      s' = s.insert name (.table cols.toFinmap checks) ∧ (cols.map (·.1)).Nodup ∧
        (cols.filter (·.2.primaryKey)).length ≤ 1 ∧ (R.checksTargets = true → ∀ c ∈ cols, Schema.fits s' c.2 = true) := by
  simp only [Rules.exec, if_neg fresh]
  split
  · rename_i h
    constructor
    · rintro ⟨⟩
      exact ⟨rfl, h⟩
    · rintro ⟨rfl, _⟩
      rfl
  · rename_i h
    constructor
    · rintro ⟨⟩
    · rintro ⟨rfl, h'⟩
      exact absurd h' h

theorem exec_createIndex {i t : String} {cs : List String} (fresh : i ∉ s) :
    R.exec s (.createIndex i t cs) = some s' ↔
      s' = s.insert i (.index t cs) ∧ ∃ cols, s.columns? t = some cols ∧ ∀ c ∈ cs, c ∈ cols := by
  simp only [Rules.exec, if_neg fresh]
  cases h : s.columns? t with
  | none => simp
  | some cols =>
    simp only [Option.ite_none_right_eq_some, Option.some.injEq, exists_eq_left']
    constructor
    · rintro ⟨hcs, rfl⟩
      exact ⟨rfl, hcs⟩
    · rintro ⟨rfl, hcs⟩
      exact ⟨hcs, rfl⟩

theorem exec_addColumn {t c : String} {col : Column} :
    R.exec s (.addColumn t c col) = some s' ↔ ∃ cols checks, s.lookup t = some (.table cols checks) ∧ c ∉ cols ∧
      (col.primaryKey = true → ∀ d k, cols.lookup d = some k → k.primaryKey = false) ∧
      (R.altersKeys = true ∨ (col.primaryKey || col.unique) = false) ∧ (R.checksTargets = true → s.fits col = true) ∧
      s' = s.insert t (.table (cols.insert c col) checks) := by
  have keys : ∀ cols : Columns, (∀ e ∈ cols.entries, e.2.primaryKey = false) ↔
      ∀ d k, cols.lookup d = some k → k.primaryKey = false := fun cols =>
    Finmap.forall_entry (p := fun _ (k : Column) => k.primaryKey = false)
  simp only [Rules.exec]
  split
  · rename_i cols checks h
    rw [Option.ite_none_right_eq_some]
    constructor
    · rintro ⟨⟨hnew, hkey, halter, hfits⟩, ⟨⟩⟩
      exact ⟨cols, checks, h, hnew, fun hk => (keys cols).mp (hkey hk), halter, hfits, rfl⟩
    · rintro ⟨cols', checks', h', hnew, hkey, halter, hfits, rfl⟩
      cases h.symm.trans h'
      exact ⟨⟨hnew, fun hk => (keys cols).mpr (hkey hk), halter, hfits⟩, rfl⟩
  · rename_i h
    constructor
    · rintro ⟨⟩
    · rintro ⟨cols, checks, h', _⟩
      exact absurd h' (h cols checks)

theorem exec_dropColumn {t c : String} :
    R.exec s (.dropColumn t c) = some s' ↔ ∃ cols checks col, s.lookup t = some (.table cols checks) ∧
      cols.lookup c = some col ∧
      ¬ s.SomeReference (fun u d _ r => (u != t || d != c) && r.table == t && r.column == c) ∧
      (R.altersKeys = true ∨ (col.primaryKey || col.unique || col.references.isSome) = false ∧
        ∀ i r, s.lookup i = some r → r.covers t c = false) ∧
      s' = (s.insert t (.table (cols.erase c) (checks.filter fun k => !R.mentions k c))).filter
        fun e => !e.2.covers t c := by
  have covered : (∀ e ∈ s.entries, e.2.covers t c = false) ↔ ∀ i r, s.lookup i = some r → r.covers t c = false :=
    Finmap.forall_entry (p := fun _ (r : Relation) => r.covers t c = false)
  simp only [Rules.exec]
  split
  · rename_i cols checks h
    split
    · rename_i hcol
      constructor
      · rintro ⟨⟩
      · rintro ⟨cols', checks', col, h', hcol', _⟩
        cases h.symm.trans h'
        cases hcol.symm.trans hcol'
    · rename_i col hcol
      rw [Option.ite_none_right_eq_some]
      constructor
      · rintro ⟨⟨href, halter⟩, ⟨⟩⟩
        exact ⟨cols, checks, col, h, hcol, href, halter.imp_right (And.imp_right covered.mp), rfl⟩
      · rintro ⟨cols', checks', col', h', hcol', href, halter, rfl⟩
        cases h.symm.trans h'
        cases hcol.symm.trans hcol'
        exact ⟨⟨href, halter.imp_right (And.imp_right covered.mpr)⟩, rfl⟩
  · rename_i h
    constructor
    · rintro ⟨⟩
    · rintro ⟨cols, checks, _, h', _⟩
      exact absurd h' (h cols checks)

theorem exec_alterType {t c type : String} {generated : Bool} :
    R.exec s (.alterType t c type generated) = some s' ↔ ∃ cols checks col, s.lookup t = some (.table cols checks) ∧
      cols.lookup c = some col ∧ generated = false ∧ R.casts col.type type = true ∧
      ¬ s.SomeReference (fun _ _ k r => r.table == t && r.column == c && k.type != type) ∧
      (R.checksTargets = true → s.fits { col with type } = true) ∧
      s' = s.insert t (.table (cols.insert c { col with type }) checks) := by
  simp only [Rules.exec]
  split
  · rename_i cols checks h
    split
    · rename_i hcol
      constructor
      · rintro ⟨⟩
      · rintro ⟨cols', checks', col, h', hcol', _⟩
        cases h.symm.trans h'
        cases hcol.symm.trans hcol'
    · rename_i col hcol
      rw [Option.ite_none_right_eq_some]
      constructor
      · rintro ⟨⟨hplain, hcast, href, hfits⟩, ⟨⟩⟩
        exact ⟨cols, checks, col, h, hcol, hplain, hcast, href, hfits, rfl⟩
      · rintro ⟨cols', checks', col', h', hcol', hplain, hcast, href, hfits, rfl⟩
        cases h.symm.trans h'
        cases hcol.symm.trans hcol'
        exact ⟨⟨hplain, hcast, href, hfits⟩, rfl⟩
  · rename_i h
    constructor
    · rintro ⟨⟩
    · rintro ⟨cols, checks, _, h', _⟩
      exact absurd h' (h cols checks)

theorem exec_dropTable {t : String} :
    R.exec s (.dropTable t) = some s' ↔ (∃ cols checks, s.lookup t = some (.table cols checks)) ∧
      (R.restrictsDrops = true → ¬ s.SomeReference fun u _ _ r => u != t && r.table == t) ∧
      s' = (s.erase t).filter fun e => !e.2.isOn t := by
  simp only [Rules.exec]
  split
  · rename_i cols checks h
    rw [Option.ite_none_right_eq_some]
    constructor
    · rintro ⟨href, ⟨⟩⟩
      exact ⟨⟨cols, checks, h⟩, href, rfl⟩
    · rintro ⟨_, href, rfl⟩
      exact ⟨href, rfl⟩
  · rename_i h
    constructor
    · rintro ⟨⟩
    · rintro ⟨⟨cols, checks, h'⟩, _⟩
      exact absurd h' (h cols checks)

/-! ### Creating -/

/-- The tables that have to be there for a `CREATE`, the one it makes itself apart. -/
def Statement.needs : Statement → List String
  | .createTable _ cols _ => cols.filterMap fun c => c.2.references.map (·.table)
  | .createIndex _ t _ => [t]
  | _ => []

/-- All statements of the list are `CREATE`s. -/
def Creating (l : List Statement) : Prop := ∀ st ∈ l, ∃ e, st.creates = some e

theorem Creating.cons {st : Statement} (h : Creating (st :: l)) :
    ∃ e, st.creates = some e ∧ created (st :: l) = e :: created l ∧ Creating l := by
  obtain ⟨e, he⟩ := h st (by simp)
  exact ⟨e, he, by simp [created, he], fun st hst => h st (by simp [hst])⟩

theorem exec_creates {st : Statement} {e : Σ _ : String, Relation} (h : st.creates = some e) (fresh : e.1 ∉ s)
    (ok : R.exec s st = some s') : s' = s.insert e.1 e.2 := by
  cases st with
  | createTable name cols checks =>
    cases h
    exact ((exec_createTable fresh).mp ok).1
  | createIndex i t cs =>
    cases h
    exact ((exec_createIndex fresh).mp ok).1
  | _ => cases h

theorem fresh_tail {e : Σ _ : String, Relation} (distinct : (e :: created l).NodupKeys)
    (fresh : ∀ e' ∈ e :: created l, e'.1 ∉ s) : ∀ e' ∈ created l, e'.1 ∉ s.insert e.1 e.2 := by
  intro e' he' hmem
  rcases Finmap.mem_insert.mp hmem with heq | hmem
  · exact (List.nodupKeys_cons.mp distinct).1 (heq ▸ List.mem_keys_of_mem he')
  · exact fresh e' (by simp [he']) hmem

theorem toFinmap_cons_union {e : Σ _ : String, Relation} {es : List (Σ _ : String, Relation)}
    (distinct : (e :: es).NodupKeys) : es.toFinmap ∪ s.insert e.1 e.2 = (e :: es).toFinmap ∪ s := by
  have hnew : e.1 ∉ es.toFinmap := by
    rw [Finmap.mem_list_toFinmap]
    rintro ⟨b, hb⟩
    have hkey := List.mem_keys_of_mem hb
    exact (List.nodupKeys_cons.mp distinct).1 hkey
  refine Finmap.ext_lookup fun x => ?_
  rw [Finmap.toFinmap_cons, ← Finmap.insert_union, Finmap.lookup_union, Finmap.lookup_insert', Finmap.lookup_insert']
  split
  · rename_i h
    subst h
    rw [Finmap.lookup_eq_none.mpr hnew, Option.none_or]
  · rw [Finmap.lookup_union]

/-- Creating new relations adds them to the schema. -/
theorem run_creates (creating : Creating l) (distinct : (created l).NodupKeys) (fresh : ∀ e ∈ created l, e.1 ∉ s)
    (ok : R.run s l = some s') : s' = (created l).toFinmap ∪ s := by
  induction l generalizing s with
  | nil =>
    cases ok
    exact Finmap.empty_union.symm
  | cons st l ih =>
    obtain ⟨e, he, hcreated, creating'⟩ := creating.cons
    rw [hcreated] at distinct fresh ⊢
    obtain ⟨t, ht, ok⟩ := Option.bind_eq_some_iff.mp (run_cons st ▸ ok)
    rw [exec_creates he (fresh e (by simp)) ht] at ok
    rw [ih creating' (List.nodupKeys_cons.mp distinct).2 (fresh_tail distinct fresh) ok]
    exact toFinmap_cons_union distinct

theorem fits_congr {c : Column} (h : ∀ r, c.references = some r → s.lookup r.table = s'.lookup r.table) :
    s.fits c = s'.fits c := by
  unfold Schema.fits Schema.column? Schema.columns?
  cases hr : c.references with
  | none => rfl
  | some r => simp only [h r hr]

/-- Whether a `CREATE` is accepted depends on the tables it needs. -/
theorem exec_creates_congr {s₁ s₂ : Schema} {st : Statement} {e : Σ _ : String, Relation} (h : st.creates = some e)
    (fresh₁ : e.1 ∉ s₁) (fresh₂ : e.1 ∉ s₂) (same : ∀ t ∈ st.needs, t ≠ e.1 → s₁.lookup t = s₂.lookup t)
    (ok : R.exec s₁ st = some s') : R.exec s₂ st = some (s₂.insert e.1 e.2) := by
  cases st with
  | createTable name cols checks =>
    cases h
    obtain ⟨rfl, hnames, hkeys, hfits⟩ := (exec_createTable fresh₁).mp ok
    refine (exec_createTable fresh₂).mpr ⟨rfl, hnames, hkeys, fun htargets c hc => ?_⟩
    rw [← hfits htargets c hc]
    refine fits_congr fun r hr => ?_
    rw [Finmap.lookup_insert', Finmap.lookup_insert']
    split
    · rfl
    · rename_i hne
      exact (same _ (List.mem_filterMap.mpr ⟨c, hc, by simp [hr]⟩) (Ne.symm hne)).symm
  | createIndex i t cs =>
    cases h
    obtain ⟨rfl, cols, hcols, hcs⟩ := (exec_createIndex fresh₁).mp ok
    refine (exec_createIndex fresh₂).mpr ⟨rfl, cols, ?_, hcs⟩
    obtain ⟨checks, hlookup⟩ := columns?_eq_some.mp hcols
    have hne : t ≠ i := by
      rintro rfl
      exact fresh₁ (Finmap.mem_of_lookup_eq_some hlookup)
    exact columns?_eq_some.mpr ⟨checks, (same t (by simp [Statement.needs]) hne).symm.trans hlookup⟩
  | _ => cases h

/-- Some of the `CREATE`s of a run that succeeds, with everything they need among them or there
    already, succeed in another schema as well. -/
theorem run_creates_sublist {s₁ s₂ t : Schema} {l' : List Statement} {N : String → Prop} (sub : l'.Sublist l)
    (creating : Creating l) (distinct : (created l).NodupKeys) (fresh₁ : ∀ e ∈ created l, e.1 ∉ s₁)
    (fresh₂ : ∀ e ∈ created l', e.1 ∉ s₂) (needs : ∀ st ∈ l', ∀ x ∈ st.needs, N x)
    (part : ∀ e ∈ created l, N e.1 → e ∈ created l') (same : ∀ x, N x → s₁.lookup x = s₂.lookup x)
    (ok : R.run s₁ l = some t) : R.run s₂ l' = some ((created l').toFinmap ∪ s₂) := by
  induction sub generalizing s₁ s₂ with
  | slnil => exact congrArg some Finmap.empty_union.symm
  | @cons l₁ l₂ st sub ih =>
    obtain ⟨e, he, hcreated, creating'⟩ := creating.cons
    rw [hcreated] at distinct fresh₁ part
    obtain ⟨u, hu, ok⟩ := Option.bind_eq_some_iff.mp (run_cons st ▸ ok)
    rw [exec_creates he (fresh₁ e (by simp)) hu] at ok
    have hout : ¬ N e.1 := fun hN => by
      have hmem := (sub.filterMap Statement.creates).subset (part e (by simp) hN)
      exact (List.nodupKeys_cons.mp distinct).1 (List.mem_keys_of_mem hmem)
    refine ih creating' (List.nodupKeys_cons.mp distinct).2 (fresh_tail distinct fresh₁) fresh₂ needs
      (fun e' he' hN => part e' (by simp [he']) hN) (fun x hx => ?_) ok
    have hne : x ≠ e.1 := by
      rintro rfl
      exact hout hx
    rw [Finmap.lookup_insert_of_ne s₁ hne]
    exact same x hx
  | @cons_cons l₁ l₂ st sub ih =>
    obtain ⟨e, he, hcreated, creating'⟩ := creating.cons
    have hcreated' : created (st :: l₁) = e :: created l₁ := by simp [created, he]
    rw [hcreated] at distinct fresh₁ part
    rw [hcreated'] at fresh₂ part ⊢
    obtain ⟨u, hu, ok⟩ := Option.bind_eq_some_iff.mp (run_cons st ▸ ok)
    have hu' : R.exec s₂ st = some (s₂.insert e.1 e.2) :=
      exec_creates_congr he (fresh₁ e (by simp)) (fresh₂ e (by simp))
        (fun x hx _ => same x (needs st (by simp) x hx)) hu
    rw [exec_creates he (fresh₁ e (by simp)) hu] at ok
    have distinct' : (e :: created l₁).NodupKeys := distinct.sublist ((sub.filterMap Statement.creates).cons_cons e)
    rw [run_cons, hu', Option.bind_some]
    rw [ih creating' (List.nodupKeys_cons.mp distinct).2 (fresh_tail distinct fresh₁) (fresh_tail distinct' fresh₂)
      (fun st hst => needs st (by simp [hst])) (fun e' he' hN => ?_) (fun x hx => ?_) ok, toFinmap_cons_union distinct']
    · have hmem := part e' (by simp [he']) hN
      refine (List.mem_cons.mp hmem).resolve_left fun heq => ?_
      exact (List.nodupKeys_cons.mp distinct).1 (heq ▸ List.mem_keys_of_mem he')
    · rw [Finmap.lookup_insert', Finmap.lookup_insert', same x hx]

/-! ### Schemas without loose ends -/

/-- Every foreign key refers to a table, and every index is on one. -/
structure Sound (s : Schema) : Prop where
  references : ∀ t c col r, s.column? t c = some col → col.references = some r → (s.columns? r.table).isSome
  indexes : ∀ i t cs, s.lookup i = some (.index t cs) → (s.columns? t).isSome

theorem sound_empty : Sound ∅ where
  references _ _ _ _ h := by
    obtain ⟨_, _, h, _⟩ := column?_eq_some.mp h
    simp at h
  indexes _ _ _ h := by simp at h

theorem lookup_setTable {t u : String} {rel : Relation} {x : Option Relation} (h : (s.insert t rel).lookup u = x) :
    (u = t ∧ x = some rel) ∨ (u ≠ t ∧ s.lookup u = x) := by
  rw [Finmap.lookup_insert'] at h
  split at h
  · rename_i heq
    exact .inl ⟨heq.symm, h.symm⟩
  · rename_i hne
    exact .inr ⟨Ne.symm hne, h⟩

theorem columns?_setTable {t u : String} {cols : Columns} {checks : List String} :
    Schema.columns? (s.insert t (.table cols checks)) u = if t = u then some cols else s.columns? u := by
  by_cases h : t = u
  · simp [Schema.columns?, h]
  · simp [Schema.columns?, Finmap.lookup_insert', h]

theorem columns?_erase {t u : String} : Schema.columns? (s.erase t) u = if t = u then none else s.columns? u := by
  by_cases h : t = u
  · simp [Schema.columns?, h]
  · simp [Schema.columns?, Finmap.lookup_erase', h]

theorem columns?_setIndex {i t u : String} {cs : List String} :
    Schema.columns? (s.insert i (.index t cs)) u = if i = u then none else s.columns? u := by
  by_cases h : i = u
  · simp [Schema.columns?, h]
  · simp [Schema.columns?, Finmap.lookup_insert', h]

/-- Dropping only indexes leaves the tables. -/
theorem columns?_filter {p : (Σ _ : String, Relation) → Bool} (tables : ∀ t cols checks, p ⟨t, .table cols checks⟩ = true)
    (t : String) : Schema.columns? (s.filter p) t = s.columns? t := by
  unfold Schema.columns?
  rw [Finmap.lookup_filter]
  cases h : s.lookup t with
  | none => rfl
  | some rel =>
    cases rel with
    | table cols checks => simp only [Option.filter_some, tables, if_true]
    | index u cs => cases p ⟨t, .index u cs⟩ <;> simp

/-- A schema stays sound when it loses no table, and its new keys and indexes are on tables. -/
theorem Sound.of_kept (sound : Sound s) (tables : ∀ t, (s.columns? t).isSome → (s'.columns? t).isSome)
    (references : ∀ t c col r, s'.column? t c = some col → col.references = some r →
      (∃ u d k q, s.column? u d = some k ∧ k.references = some q ∧ q.table = r.table) ∨ (s'.columns? r.table).isSome)
    (indexes : ∀ i t cs, s'.lookup i = some (.index t cs) →
      (∃ j ds, s.lookup j = some (.index t ds)) ∨ (s'.columns? t).isSome) : Sound s' where
  references t c col r hcol hr := by
    rcases references t c col r hcol hr with ⟨u, d, k, q, hk, hq, heq⟩ | h
    · exact tables _ (heq ▸ sound.references u d k q hk hq)
    · exact h
  indexes i t cs hi := by
    rcases indexes i t cs hi with ⟨j, ds, hj⟩ | h
    · exact tables t (sound.indexes j t ds hj)
    · exact h

theorem Sound.setTable (sound : Sound s) {t : String} {cols : Columns} {checks : List String}
    (references : ∀ c col r, cols.lookup c = some col → col.references = some r →
      (∃ u d k q, s.column? u d = some k ∧ k.references = some q ∧ q.table = r.table) ∨
        (Schema.columns? (s.insert t (.table cols checks)) r.table).isSome) :
    Sound (s.insert t (.table cols checks)) := by
  refine sound.of_kept (fun u hu => ?_) (fun u c col r hcol hr => ?_) fun i u cs hi => ?_
  · rw [columns?_setTable]
    split
    · rfl
    · exact hu
  · obtain ⟨cols', checks', htable, hcol⟩ := column?_eq_some.mp hcol
    rcases lookup_setTable htable with ⟨_, heq⟩ | ⟨_, htable⟩
    · cases heq
      exact references c col r hcol hr
    · exact .inl ⟨u, c, col, r, column?_eq_some.mpr ⟨cols', checks', htable, hcol⟩, hr, rfl⟩
  · rcases lookup_setTable hi with ⟨_, heq⟩ | ⟨_, hi⟩
    · cases heq
    · exact .inl ⟨i, cs, hi⟩

theorem Sound.filter (sound : Sound s) {p : (Σ _ : String, Relation) → Bool}
    (tables : ∀ t cols checks, p ⟨t, .table cols checks⟩ = true) : Sound (s.filter p) := by
  have hcols := columns?_filter (s := s) tables
  refine sound.of_kept (fun u hu => by rwa [hcols]) (fun u c col r hcol hr => ?_) fun i u cs hi => ?_
  · rw [Schema.column?, hcols] at hcol
    exact .inl ⟨u, c, col, r, hcol, hr, rfl⟩
  · rw [Finmap.lookup_filter, Option.filter_eq_some_iff] at hi
    exact .inl ⟨i, cs, hi.1⟩

theorem Sound.renamed (sound : Sound s) (t old new : String) :
    Sound (s.mapVal fun _ r => r.renamed t old new) := by
  have lookup : ∀ x, (s.mapVal fun _ r => r.renamed t old new).lookup x = (s.lookup x).map (·.renamed t old new) :=
    Finmap.lookup_mapVal _ s
  refine sound.of_kept (fun u hu => ?_) (fun u c col r hcol hr => ?_) fun i u cs hi => ?_
  · obtain ⟨cols, hcols⟩ := Option.isSome_iff_exists.mp hu
    obtain ⟨checks, htable⟩ := columns?_eq_some.mp hcols
    exact Option.isSome_iff_exists.mpr ⟨_, columns?_eq_some.mpr ⟨checks, by rw [lookup, htable]; rfl⟩⟩
  · obtain ⟨cols, checks, htable, hcol⟩ := column?_eq_some.mp hcol
    rw [lookup, Option.map_eq_some_iff] at htable
    obtain ⟨rel, hrel, heq⟩ := htable
    cases rel with
    | index u cs => cases heq
    | table cols' _ =>
      cases heq
      rw [Finmap.lookup_mapVal, Option.map_eq_some_iff] at hcol
      obtain ⟨k, hk, rfl⟩ := hcol
      obtain ⟨q, hq, heq⟩ := Option.map_eq_some_iff.mp hr
      refine .inl ⟨u, c, k, q, column?_eq_some.mpr ⟨cols', _, hrel, hk⟩, hq, ?_⟩
      rw [← heq]
      split <;> rfl
  · rw [lookup, Option.map_eq_some_iff] at hi
    obtain ⟨rel, hrel, heq⟩ := hi
    cases rel with
    | table cols checks => cases heq
    | index u' cs' =>
      cases heq
      exact .inl ⟨i, cs', hrel⟩

theorem mem_of_lookup_toFinmap {cols : List Entry} {c : String} {col : Column}
    (h : cols.toFinmap.lookup c = some col) : ⟨c, col⟩ ∈ cols := by
  rw [Finmap.dlookup_list_toFinmap] at h
  exact List.of_mem_dlookup h

theorem isSome_of_fits {col : Column} {r : Reference} (h : s.fits col = true) (hr : col.references = some r) :
    (s.columns? r.table).isSome := by
  obtain ⟨k, hk, _⟩ := fits_iff.mp h r hr
  obtain ⟨cols, checks, htable, _⟩ := column?_eq_some.mp hk
  exact Option.isSome_iff_exists.mpr ⟨cols, columns?_eq_some.mpr ⟨checks, htable⟩⟩

/-- Where foreign keys are checked and referenced tables kept, every statement keeps a schema sound. -/
theorem exec_sound (checks : R.checksTargets = true) (restricts : R.restrictsDrops = true) (sound : Sound s)
    {st : Statement} (ok : R.exec s st = some s') : Sound s' := by
  cases st with
  | createTable name cols cks =>
    by_cases hold : name ∈ s
    · simp only [Rules.exec, if_pos hold] at ok
      cases ok
      exact sound
    · obtain ⟨rfl, _, _, hfits⟩ := (exec_createTable hold).mp ok
      refine sound.setTable fun c col r hcol hr => .inr ?_
      exact isSome_of_fits (hfits checks _ (mem_of_lookup_toFinmap hcol)) hr
  | addColumn t c col =>
    obtain ⟨cols, cks, htable, _, _, _, hfits, rfl⟩ := exec_addColumn.mp ok
    refine sound.setTable fun d k r hk hr => ?_
    rw [Finmap.lookup_insert'] at hk
    split at hk
    · cases hk
      refine .inr ?_
      rw [columns?_setTable]
      split
      · rfl
      · exact isSome_of_fits (hfits checks) hr
    · exact .inl ⟨t, d, k, r, column?_eq_some.mpr ⟨cols, cks, htable, hk⟩, hr, rfl⟩
  | dropColumn t c =>
    obtain ⟨cols, cks, col, htable, _, _, _, rfl⟩ := exec_dropColumn.mp ok
    refine Sound.filter (sound.setTable fun d k r hk hr => ?_) fun _ _ _ => rfl
    rw [Finmap.lookup_erase'] at hk
    split at hk
    · cases hk
    · exact .inl ⟨t, d, k, r, column?_eq_some.mpr ⟨cols, cks, htable, hk⟩, hr, rfl⟩
  | alterType t c type generated =>
    obtain ⟨cols, cks, col, htable, hcol, _, _, _, _, rfl⟩ := exec_alterType.mp ok
    refine sound.setTable fun d k r hk hr => .inl ?_
    rw [Finmap.lookup_insert'] at hk
    split at hk
    · cases hk
      exact ⟨t, c, col, r, column?_eq_some.mpr ⟨cols, cks, htable, hcol⟩, hr, rfl⟩
    · exact ⟨t, d, k, r, column?_eq_some.mpr ⟨cols, cks, htable, hk⟩, hr, rfl⟩
  | renameColumn t old new =>
    simp only [Rules.exec] at ok
    split at ok
    · rename_i cols cks htable
      split at ok
      · cases ok
      · rename_i col hcol
        rw [Option.ite_none_left_eq_some] at ok
        obtain ⟨_, ⟨⟩⟩ := ok
        refine Sound.renamed (sound.setTable fun d k r hk hr => .inl ?_) t old new
        rw [Finmap.lookup_insert', Finmap.lookup_erase'] at hk
        split at hk
        · cases hk
          exact ⟨t, old, col, r, column?_eq_some.mpr ⟨cols, cks, htable, hcol⟩, hr, rfl⟩
        · split at hk
          · cases hk
          · exact ⟨t, d, k, r, column?_eq_some.mpr ⟨cols, cks, htable, hk⟩, hr, rfl⟩
    · cases ok
  | dropTable t =>
    obtain ⟨⟨cols, cks, htable⟩, hfree, rfl⟩ := exec_dropTable.mp ok
    have hfree := fun h => hfree restricts (someReference_iff.mpr h)
    have columns : ∀ u, Schema.columns? ((s.erase t).filter fun e => !e.2.isOn t) u =
        if t = u then none else s.columns? u := fun u => by
      rw [columns?_filter fun _ _ _ => rfl, columns?_erase]
    constructor
    · intro u c k r hk hr
      rw [Schema.column?, columns] at hk
      split at hk
      · cases hk
      · rename_i hne
        rw [columns, if_neg fun heq => hfree ⟨u, c, k, r, hk, hr, by simp [Ne.symm hne, ← heq]⟩]
        exact sound.references u c k r hk hr
    · intro i u cs hi
      rw [Finmap.lookup_filter, Option.filter_eq_some_iff, Finmap.lookup_erase'] at hi
      obtain ⟨hi, hon⟩ := hi
      split at hi
      · cases hi
      · rw [columns, if_neg fun heq => by simp [Relation.isOn, heq] at hon]
        exact sound.indexes i u cs hi
  | createIndex i t cs =>
    by_cases hold : i ∈ s
    · simp only [Rules.exec] at ok
      split at ok
      · rw [Option.ite_none_right_eq_some] at ok
        obtain ⟨_, heq⟩ := ok
        rw [if_pos hold] at heq
        cases heq
        exact sound
      · cases ok
    · obtain ⟨rfl, cols, hcols, _⟩ := (exec_createIndex hold).mp ok
      have columns : ∀ u, Schema.columns? (s.insert i (.index t cs)) u = s.columns? u := fun u => by
        rw [columns?_setIndex]
        split
        · rename_i heq
          rw [Schema.columns?, ← heq, Finmap.lookup_eq_none.mpr hold]
        · rfl
      refine sound.of_kept (fun u hu => by rwa [columns]) (fun u c k r hk hr => ?_) fun j u ds hj => ?_
      · rw [Schema.column?, columns] at hk
        exact .inl ⟨u, c, k, r, hk, hr, rfl⟩
      · rcases lookup_setTable hj with ⟨_, heq⟩ | ⟨_, hj⟩
        · cases heq
          exact .inr (by simp [columns, hcols])
        · exact .inl ⟨j, ds, hj⟩
  | dropIndex i =>
    simp only [Rules.exec] at ok
    split at ok
    · cases ok
      exact sound
    · rename_i u' cs' hi
      cases ok
      have columns : ∀ u, Schema.columns? (s.erase i) u = s.columns? u := fun u => by
        rw [columns?_erase]
        split
        · rename_i heq
          rw [Schema.columns?, ← heq, hi]
        · rfl
      refine sound.of_kept (fun u hu => by rwa [columns]) (fun u c k r hk hr => ?_) fun j u ds hj => ?_
      · rw [Schema.column?, columns] at hk
        exact .inl ⟨u, c, k, r, hk, hr, rfl⟩
      · rw [Finmap.lookup_erase'] at hj
        split at hj
        · cases hj
        · exact .inl ⟨j, ds, hj⟩
    · cases ok

theorem run_sound (checks : R.checksTargets = true) (restricts : R.restrictsDrops = true) (sound : Sound s)
    (ok : R.run s l = some s') : Sound s' := by
  induction l generalizing s with
  | nil =>
    cases ok
    exact sound
  | cons st l ih =>
    obtain ⟨t, ht, ok⟩ := Option.bind_eq_some_iff.mp (run_cons st ▸ ok)
    exact ih (exec_sound checks restricts sound ht) ok

end Ddl
