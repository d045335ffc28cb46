import Djangors.Lib.DdlRuns

/-! # Taking a list of `CREATE`s back

Every `CREATE` has a `DROP` that takes it back. Run in the order in which the relations were created, on
a server that keeps referenced tables, the `DROP`s restore the schema exactly when every relation was new
and no created table references another one. -/

namespace Ddl
variable {R : Rules} {s s' s₀ s₁ : Schema} {l : List Statement}

/-- The statements that take a list of statements back one by one, in the same order. -/
def undone (l : List Statement) : List Statement := l.filterMap Statement.undo

/-- A table of the list refers to itself and to tables that the list does not create. -/
def Statement.Apart (names : List String) : Statement → Prop
  | .createTable name cols _ => ∀ c ∈ cols, ∀ r, c.2.references = some r → r.table = name ∨ r.table ∉ names
  | _ => True

/-- What the `DROP` of a created relation does. -/
theorem exec_undo {st : Statement} {e : Σ _ : String, Relation} (h : st.creates = some e) :
    ∃ d, st.undo = some d ∧ ∀ s s', R.exec s d = some s' →
      e.1 ∉ s' ∧ (∀ x rel, s'.lookup x = some rel → s.lookup x = some rel) ∧
        ∀ n cols cks, n ≠ e.1 → s.lookup n = some (.table cols cks) → s'.lookup n = some (.table cols cks) := by
  cases st with
  | createTable name cols cks =>
    cases h
    refine ⟨_, rfl, fun s s' ok => ?_⟩
    obtain ⟨_, _, rfl⟩ := exec_dropTable.mp ok
    refine ⟨fun hmem => ?_, fun x rel hx => ?_, fun n cols cks hne hn => ?_⟩
    · obtain ⟨rel, hrel⟩ := Finmap.mem_iff.mp hmem
      simp [Finmap.lookup_filter] at hrel
    · rw [Finmap.lookup_filter, Option.filter_eq_some_iff, Finmap.lookup_erase'] at hx
      split at hx
      · exact absurd hx.1 nofun
      · exact hx.1
    · rw [Finmap.lookup_filter, Finmap.lookup_erase_ne hne, hn]
      rfl
  | createIndex i t cs =>
    cases h
    refine ⟨_, rfl, fun s s' ok => ?_⟩
    simp only [Rules.exec] at ok
    split at ok
    · rename_i habsent
      cases ok
      exact ⟨Finmap.lookup_eq_none.mp habsent, fun _ _ h => h, fun _ _ _ _ h => h⟩
    · cases ok
      refine ⟨Finmap.notMem_erase_self, fun x rel hx => ?_, fun n cols cks hne hn => ?_⟩
      · rw [Finmap.lookup_erase'] at hx
        split at hx
        · cases hx
        · exact hx
      · rwa [Finmap.lookup_erase_ne hne]
    · cases ok
  | _ => cases h

theorem undone_cons {st d : Statement} (h : st.undo = some d) : undone (st :: l) = d :: undone l :=
  List.filterMap_cons_some h

/-- Afterwards none of the created relations is there, and nothing else has come. -/
theorem run_undone (creating : Creating l) (ok : R.run s (undone l) = some s') :
    (∀ e ∈ created l, e.1 ∉ s') ∧ (∀ x rel, s'.lookup x = some rel → s.lookup x = some rel) ∧
      ∀ n cols cks, n ∉ (created l).keys → s.lookup n = some (.table cols cks) →
        s'.lookup n = some (.table cols cks) := by
  induction l generalizing s with
  | nil =>
    cases ok
    exact ⟨by simp [created], fun _ _ h => h, fun _ _ _ _ h => h⟩
  | cons st l ih =>
    obtain ⟨e, he, hcreated, creating'⟩ := creating.cons
    obtain ⟨d, hd, hexec⟩ := exec_undo (R := R) he
    rw [undone_cons hd] at ok
    obtain ⟨t, ht, ok⟩ := Option.bind_eq_some_iff.mp (run_cons d ▸ ok)
    obtain ⟨hgone, hback, hstays⟩ := hexec s t ht
    obtain ⟨hgone', hback', hstays'⟩ := ih creating' ok
    rw [hcreated]
    refine ⟨fun e' he' => ?_, fun x rel hx => hback x rel (hback' x rel hx), fun n cols cks hn htable => ?_⟩
    · rcases List.mem_cons.mp he' with rfl | he'
      · intro hmem
        obtain ⟨rel, hrel⟩ := Finmap.mem_iff.mp hmem
        exact hgone (Finmap.mem_of_lookup_eq_some (hback' _ rel hrel))
      · exact hgone' e' he'
    · rw [List.keys_cons, List.mem_cons, not_or] at hn
      exact hstays' n cols cks hn.2 (hstays n cols cks hn.1 htable)

/-! ### Dropping in the order of creation -/

/-- The entry is none of the relations `names`, and no index on one. -/
def keep (names : List String) (e : Σ _ : String, Relation) : Bool :=
  e.1 ∉ names && match e.2 with
    | .table .. => true
    | .index t _ => t ∉ names

theorem keep_cons (n : String) (names : List String) (x : String) (rel : Relation) :
    keep (n :: names) ⟨x, rel⟩ = (x != n && !rel.isOn n && keep names ⟨x, rel⟩) := by
  cases rel with
  | table cols cks => by_cases h : x = n <;> simp [keep, Relation.isOn, h]
  | index t cs => by_cases h : x = n <;> by_cases ht : t = n <;> simp [keep, Relation.isOn, h, ht]

theorem erase_keep_table (n : String) (names : List String) :
    ((s.filter (keep names)).erase n).filter (fun e => !e.2.isOn n) = s.filter (keep (n :: names)) := by
  refine Finmap.ext_lookup fun x => ?_
  rw [Finmap.lookup_filter, Finmap.lookup_erase', Finmap.lookup_filter, Finmap.lookup_filter]
  cases s.lookup x with
  | none => split <;> rfl
  | some rel =>
    by_cases h : n = x
    · simp [h, keep_cons]
    · have hne : (x != n) = true := bne_iff_ne.mpr (Ne.symm h)
      cases hkeep : keep names ⟨x, rel⟩ <;> cases hon : rel.isOn n <;>
        simp [Option.filter_some, keep_cons, h, hne, hkeep, hon]

theorem erase_keep_index (n : String) (names : List String) (bare : ∀ i cs, s.lookup i ≠ some (.index n cs)) :
    (s.filter (keep names)).erase n = s.filter (keep (n :: names)) := by
  refine Finmap.ext_lookup fun x => ?_
  rw [Finmap.lookup_erase', Finmap.lookup_filter, Finmap.lookup_filter]
  cases hx : s.lookup x with
  | none => split <;> rfl
  | some rel =>
    have hon : rel.isOn n = false := by
      cases rel with
      | table cols cks => rfl
      | index t cs => exact beq_false_of_ne fun heq => bare x cs (heq ▸ hx)
    by_cases h : n = x
    · simp [h, keep_cons]
    · have hne : (x != n) = true := bne_iff_ne.mpr (Ne.symm h)
      cases hkeep : keep names ⟨x, rel⟩ <;> simp [Option.filter_some, keep_cons, h, hne, hkeep, hon]

theorem exists_createTable {n : String} {cols : Columns} {cks : List String}
    (h : ⟨n, .table cols cks⟩ ∈ created l) :
    ∃ entries, .createTable n entries cks ∈ l ∧ cols = entries.toFinmap := by
  obtain ⟨st, hst, heq⟩ := List.mem_filterMap.mp h
  cases st with
  | createTable name entries checks =>
    cases heq
    exact ⟨entries, hst, rfl⟩
  | _ => cases heq

/-- What a schema holds after new relations have been created. -/
theorem lookup_created {es : List (Σ _ : String, Relation)} (distinct : es.NodupKeys) (fresh : ∀ e ∈ es, e.1 ∉ s)
    {x : String} {rel : Relation} :
    (es.toFinmap ∪ s).lookup x = some rel ↔ ⟨x, rel⟩ ∈ es ∨ s.lookup x = some rel := by
  rw [Finmap.lookup_union, ← Finmap.lookup_toFinmap_eq_some distinct, Option.or_eq_some_iff]
  constructor
  · rintro (h | ⟨_, h⟩)
    · exact .inl h
    · exact .inr h
  · rintro (h | h)
    · exact .inl h
    · refine .inr ⟨?_, h⟩
      rw [Option.eq_none_iff_forall_ne_some]
      intro rel' h'
      exact fresh _ ((Finmap.lookup_toFinmap_eq_some distinct).mp h') (Finmap.mem_of_lookup_eq_some h)

/-- Without the new relations, a sound schema is what it was. -/
theorem filter_keep_created {es : List (Σ _ : String, Relation)} (sound : Sound s) (fresh : ∀ e ∈ es, e.1 ∉ s) :
    (es.toFinmap ∪ s).filter (keep es.keys.reverse) = s := by
  refine Finmap.ext_lookup fun x => ?_
  rw [Finmap.lookup_filter, Finmap.lookup_union]
  by_cases hx : x ∈ es.keys
  · obtain ⟨e, he, rfl⟩ := List.mem_map.mp hx
    rw [Finmap.lookup_eq_none.mpr (fresh e he), Option.or_none]
    refine Option.filter_eq_none_iff.mpr fun rel _ => ?_
    simp only [keep, List.mem_reverse, hx, not_true_eq_false, decide_false, Bool.false_and]
    exact Bool.false_ne_true
  · have habsent : es.toFinmap.lookup x = none := by
      rw [Finmap.dlookup_list_toFinmap]
      exact List.dlookup_eq_none.mpr hx
    rw [habsent, Option.none_or]
    cases hrel : s.lookup x with
    | none => rfl
    | some rel =>
      refine Option.filter_some_pos ?_
      cases rel with
      | table cols cks => simp [keep, hx]
      | index t cs =>
        obtain ⟨cols, hcols⟩ := Option.isSome_iff_exists.mp (sound.indexes x t cs hrel)
        obtain ⟨cks, htable⟩ := columns?_eq_some.mp hcols
        have ht : t ∉ es.keys := by
          intro hmem
          obtain ⟨e, he, rfl⟩ := List.mem_map.mp hmem
          exact fresh e he (Finmap.mem_of_lookup_eq_some htable)
        simp [keep, hx, ht]

/-- One `DROP` after the other takes away the relations of the list and what is on them. -/
theorem run_undone_keep (sound₁ : Sound s₁) (l : List Statement) (names : List String) (creating : Creating l)
    (distinct : (created l).NodupKeys) (apart : ∀ e ∈ created l, e.1 ∉ names)
    (here : ∀ e ∈ created l, s₁.lookup e.1 = some e.2)
    (free : ∀ e ∈ created l, ∀ u c col r, s₁.column? u c = some col → col.references = some r → u ≠ e.1 → r.table ≠ e.1) :
    R.run (s₁.filter (keep names)) (undone l) = some (s₁.filter (keep ((created l).keys.reverse ++ names))) := by
  induction l generalizing names with
  | nil => rfl
  | cons st l ih =>
    obtain ⟨e, he, hcreated, creating'⟩ := creating.cons
    rw [hcreated] at distinct apart here free ⊢
    have hrest : R.run (s₁.filter (keep (e.1 :: names))) (undone l) =
        some (s₁.filter (keep (((e :: created l).keys.reverse) ++ names))) := by
      rw [List.keys_cons, List.reverse_cons, List.append_assoc]
      refine ih (e.1 :: names) creating' (List.nodupKeys_cons.mp distinct).2 (fun e' he' => ?_)
        (fun e' he' => here e' (by simp [he'])) fun e' he' => free e' (by simp [he'])
      rw [List.mem_cons, not_or]
      refine ⟨fun heq => ?_, apart e' (by simp [he'])⟩
      exact (List.nodupKeys_cons.mp distinct).1 (heq ▸ List.mem_keys_of_mem he')
    have hhere := here e (by simp)
    have hname := apart e (by simp)
    cases st with
    | createTable n cols cks =>
      cases he
      have hexec : R.exec (s₁.filter (keep names)) (.dropTable n) = some (s₁.filter (keep (n :: names))) := by
        refine exec_dropTable.mpr ⟨⟨cols.toFinmap, cks, ?_⟩, fun _ href => ?_, (erase_keep_table n names).symm⟩
        · rw [Finmap.lookup_filter, hhere]
          simp [Option.filter_some, keep, hname]
        · obtain ⟨u, c, col, r, hcol, hr, hp⟩ := someReference_iff.mp href
          obtain ⟨cols', cks', htable, hcol⟩ := column?_eq_some.mp hcol
          rw [Finmap.lookup_filter, Option.filter_eq_some_iff] at htable
          simp only [Bool.and_eq_true, bne_iff_ne, beq_iff_eq] at hp
          exact free ⟨n, .table cols.toFinmap cks⟩ (by simp) u c col r (column?_eq_some.mpr ⟨cols', cks', htable.1, hcol⟩) hr hp.1 hp.2
      rw [undone_cons (d := .dropTable n) rfl, run_cons, hexec]
      exact hrest
    | createIndex i t cs =>
      cases he
      have bare : ∀ j ds, s₁.lookup j ≠ some (.index i ds) := fun j ds hj => by
        obtain ⟨cols, hcols⟩ := Option.isSome_iff_exists.mp (sound₁.indexes j i ds hj)
        obtain ⟨cks, htable⟩ := columns?_eq_some.mp hcols
        cases hhere.symm.trans htable
      have hexec : R.exec (s₁.filter (keep names)) (.dropIndex i) = some (s₁.filter (keep (i :: names))) := by
        rw [← erase_keep_index i names bare]
        simp only [Rules.exec]
        split
        · rename_i habsent
          refine congrArg some (Finmap.ext_lookup fun x => ?_)
          rw [Finmap.lookup_erase']
          split
          · rename_i heq
            rw [← heq, habsent]
          · rfl
        · rfl
        · rename_i cols cks htable
          rw [Finmap.lookup_filter, hhere, Option.filter_eq_some_iff] at htable
          cases htable.1
      rw [undone_cons (d := .dropIndex i) rfl, run_cons, hexec]
      exact hrest
    | _ => cases he

theorem created_append (l l' : List Statement) : created (l ++ l') = created l ++ created l' :=
  List.filterMap_append ..

/-- A created table refers to tables created before it and to tables that were there. -/
theorem target_created_before (checks : R.checksTargets = true) {n : String} {cols : List Entry} {cks : List String}
    {before rest : List Statement} (creating : Creating (before ++ .createTable n cols cks :: rest))
    (distinct : (created (before ++ .createTable n cols cks :: rest)).NodupKeys)
    (fresh : ∀ e ∈ created (before ++ .createTable n cols cks :: rest), e.1 ∉ s₀)
    (up : R.run s₀ (before ++ .createTable n cols cks :: rest) = some s₁) :
    (cols.map (·.1)).Nodup ∧ ∀ c ∈ cols, ∀ r, c.2.references = some r → r.table ≠ n → r.table ∉ s₀ →
      ∃ entries cks', .createTable r.table entries cks' ∈ before := by
  rw [created_append] at distinct fresh
  rw [run_append] at up
  obtain ⟨u, hu, up⟩ := Option.bind_eq_some_iff.mp up
  obtain ⟨v, hv, _⟩ := Option.bind_eq_some_iff.mp (run_cons _ ▸ up)
  have distinct_before := distinct.sublist (List.sublist_append_left ..)
  have fresh_before : ∀ e ∈ created before, e.1 ∉ s₀ := fun e he => fresh e (List.mem_append_left _ he)
  have hbefore := run_creates (fun st hst => creating st (List.mem_append_left _ hst)) distinct_before fresh_before hu
  have hn : n ∉ u := by
    intro hmem
    obtain ⟨rel, hrel⟩ := Finmap.mem_iff.mp hmem
    rw [hbefore] at hrel
    rcases (lookup_created distinct_before fresh_before).mp hrel with hmem | hold
    · rw [List.NodupKeys, List.keys_append] at distinct
      exact List.disjoint_of_nodup_append distinct (List.mem_keys_of_mem hmem) (by simp [created, Statement.creates])
    · exact fresh ⟨n, .table cols.toFinmap cks⟩ (by simp [created, Statement.creates]) (Finmap.mem_of_lookup_eq_some hold)
  obtain ⟨rfl, hnames, _, hfits⟩ := (exec_createTable hn).mp hv
  refine ⟨hnames, fun c hc r hr hne hnew => ?_⟩
  obtain ⟨k, hk, _⟩ := fits_iff.mp (hfits checks c hc) r hr
  obtain ⟨cols', cks', htable, _⟩ := column?_eq_some.mp hk
  rw [Finmap.lookup_insert_of_ne _ hne, hbefore] at htable
  rcases (lookup_created distinct_before fresh_before).mp htable with hmem | hold
  · obtain ⟨entries, hst, _⟩ := exists_createTable hmem
    exact ⟨entries, cks', hst⟩
  · exact absurd (Finmap.mem_of_lookup_eq_some hold) hnew

/-- Where foreign keys are checked and referenced tables kept, dropping the created relations in the order
    of their creation restores the schema exactly when all of them were new and no table of theirs refers
    to another. -/
theorem run_undone_iff (checks : R.checksTargets = true) (restricts : R.restrictsDrops = true) (sound₀ : Sound s₀)
    (creating : Creating l) (distinct : (created l).NodupKeys) (up : R.run s₀ l = some s₁) :
    R.run s₁ (undone l) = some s₀ ↔ (∀ e ∈ created l, e.1 ∉ s₀) ∧ ∀ st ∈ l, st.Apart (created l).keys := by
  have sound₁ := run_sound checks restricts sound₀ up
  constructor
  · intro down
    have fresh := (run_undone creating down).1
    refine ⟨fresh, fun st hst => ?_⟩
    cases st with
    | createTable n cols cks =>
      intro c hc r hr
      by_contra hother
      rw [not_or, not_not] at hother
      obtain ⟨hne, ht⟩ := hother
      have hnew : r.table ∉ s₀ := by
        obtain ⟨e, he, heq⟩ := List.mem_map.mp ht
        exact heq ▸ fresh e he
      -- the table `r.table` was there when `n` was created, so its own `CREATE` and `DROP` come first
      obtain ⟨before, rest, rfl⟩ := List.append_of_mem hst
      obtain ⟨hnames, htargets⟩ := target_created_before checks creating distinct fresh up
      obtain ⟨entries, cks', hbefore⟩ := htargets c hc r hr hne hnew
      have here : s₁.lookup n = some (.table cols.toFinmap cks) := by
        rw [run_creates creating distinct fresh up]
        exact (lookup_created distinct fresh).mpr (.inl (by simp [created, Statement.creates]))
      obtain ⟨first, middle, rfl⟩ := List.append_of_mem hbefore
      have hdown : undone (first ++ .createTable r.table entries cks' :: middle ++ .createTable n cols cks :: rest) =
          undone first ++ .dropTable r.table :: undone (middle ++ .createTable n cols cks :: rest) := by
        simp [undone, Statement.undo]
      rw [hdown, run_append] at down
      obtain ⟨w, hw, down⟩ := Option.bind_eq_some_iff.mp down
      obtain ⟨_, hdrop, _⟩ := Option.bind_eq_some_iff.mp (run_cons _ ▸ down)
      have creating_first : Creating first := fun st hst => creating st (by simp [hst])
      have hn : n ∉ (created first).keys := by
        intro hmem
        simp only [created_append, List.append_assoc] at distinct
        rw [List.NodupKeys, List.keys_append] at distinct
        exact List.disjoint_of_nodup_append distinct hmem (by simp [created, Statement.creates])
      have hthere := (run_undone creating_first hw).2.2 n cols.toFinmap cks hn here
      refine (exec_dropTable.mp hdrop).2.1 restricts (someReference_iff.mpr ⟨n, c.1, c.2, r, ?_, hr, ?_⟩)
      · exact column?_eq_some.mpr ⟨_, _, hthere, (Finmap.lookup_toFinmap_eq_some hnames).mpr hc⟩
      · simp [Ne.symm hne]
    | _ => trivial
  · rintro ⟨fresh, apart⟩
    have after := run_creates creating distinct fresh up
    have here : ∀ e ∈ created l, s₁.lookup e.1 = some e.2 := fun e he => by
      rw [after]
      exact (lookup_created distinct fresh).mpr (.inl he)
    have hdown := run_undone_keep (R := R) sound₁ l [] creating distinct (by simp) here
      fun e he u c col r hcol hr hne heq => ?_
    · rw [List.append_nil] at hdown
      have hall : s₁.filter (keep []) = s₁ := Finmap.ext_lookup fun x => by
        rw [Finmap.lookup_filter]
        cases s₁.lookup x with
        | none => rfl
        | some rel => cases rel <;> rfl
      rw [hall, after, filter_keep_created sound₀ fresh] at hdown
      rwa [after]
    · -- a table that refers to `e.1` is neither one of the list nor one that was there before
      obtain ⟨cols, cks, htable, hcol⟩ := column?_eq_some.mp hcol
      rw [after] at htable
      rcases (lookup_created distinct fresh).mp htable with hmem | hold
      · obtain ⟨entries, hst, rfl⟩ := exists_createTable hmem
        have := apart _ hst _ (mem_of_lookup_toFinmap hcol) r hr
        rcases this with h | h
        · exact hne (h.symm.trans heq)
        · exact h (heq ▸ List.mem_keys_of_mem he)
      · obtain ⟨cols', hcols'⟩ := Option.isSome_iff_exists.mp
          (sound₀.references u c col r (column?_eq_some.mpr ⟨cols, cks, hold, hcol⟩) hr)
        obtain ⟨cks', htable'⟩ := columns?_eq_some.mp hcols'
        exact fresh e he (heq ▸ Finmap.mem_of_lookup_eq_some htable')

end Ddl
