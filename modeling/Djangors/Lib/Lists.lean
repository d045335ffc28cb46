import Mathlib.Data.List.Forall2
import Mathlib.Data.List.Nodup

/-! # Relations along lists, and lists with keys -/

namespace List
variable {α β : Type} {R S : α → β → Prop} {as as' : List α} {bs bs' : List β}

/-- A relation along a list may use that its elements are members. -/
theorem Forall₂.of_mem (h : Forall₂ R as bs) (hRS : ∀ a ∈ as, ∀ b, R a b → S a b) : Forall₂ S as bs := by
  induction h with
  | nil => exact .nil
  | cons hab _ ih => exact .cons (hRS _ (by simp) _ hab) (ih fun a ha => hRS a (by simp [ha]))

theorem Forall₂.exists_of_mem_left (h : Forall₂ R as bs) {a : α} (ha : a ∈ as) : ∃ b ∈ bs, R a b := by
  induction h with
  | nil => cases ha
  | cons hab _ ih =>
    rcases mem_cons.mp ha with rfl | ha
    · exact ⟨_, mem_cons_self .., hab⟩
    · obtain ⟨b, hb, hab⟩ := ih ha
      exact ⟨b, mem_cons_of_mem _ hb, hab⟩

theorem Forall₂.exists_of_mem_right (h : Forall₂ R as bs) {b : β} (hb : b ∈ bs) : ∃ a ∈ as, R a b :=
  h.flip.exists_of_mem_left hb

theorem Forall₂.map_eq {γ : Type} {f : α → γ} {g : β → γ} (h : Forall₂ R as bs) (hR : ∀ a b, R a b → g b = f a) :
    bs.map g = as.map f := by
  induction h with
  | nil => rfl
  | cons hab _ ih => rw [map_cons, map_cons, hR _ _ hab, ih]

/-- What is left of related lists by tests that agree is related. -/
theorem Forall₂.filter {p : α → Bool} {q : β → Bool} (h : Forall₂ R as bs) (hR : ∀ a b, R a b → p a = q b) :
    Forall₂ R (as.filter p) (bs.filter q) := by
  induction h with
  | nil => exact .nil
  | cons hab _ ih =>
    rw [filter_cons, filter_cons, hR _ _ hab]
    split
    · exact .cons hab ih
    · exact ih

/-- How two lists compare that are related to a third. -/
theorem Forall₂.forall₂_iff {γ : Type} {S : α → γ → Prop} {Q : β → γ → Prop} {cs : List γ} {p : α → Prop}
    (h : Forall₂ R as bs) (h' : Forall₂ S as cs) (hQ : ∀ a b c, R a b → S a c → (Q b c ↔ p a)) :
    Forall₂ Q bs cs ↔ ∀ a ∈ as, p a := by
  induction h generalizing cs with
  | nil =>
    cases h'
    simp
  | cons hab _ ih =>
    obtain _ | ⟨hac, hs⟩ := h'
    rw [forall₂_cons, forall_mem_cons, hQ _ _ _ hab hac, ih hs]

/-- Lists of one length are related in parts. -/
theorem forall₂_append_iff (h : as.length = bs.length) :
    Forall₂ R (as ++ as') (bs ++ bs') ↔ Forall₂ R as bs ∧ Forall₂ R as' bs' := by
  induction as generalizing bs with
  | nil =>
    obtain rfl := length_eq_zero_iff.mp h.symm
    simp
  | cons a as ih =>
    cases bs with
    | nil => cases h
    | cons b bs => simp [ih (Nat.succ.inj h), and_assoc]

/-- What maps among the elements that are left out changes none of the others. -/
theorem filter_map_eq {p : α → Bool} {f : α → α} (h : ∀ a ∈ as, f a = a ∨ p a = false ∧ p (f a) = false) :
    (as.map f).filter p = as.filter p := by
  induction as with
  | nil => rfl
  | cons a as ih =>
    have ih := ih fun a ha => h a (by simp [ha])
    rcases h a (by simp) with heq | ⟨hp, hpf⟩
    · rw [map_cons, heq, filter_cons, filter_cons, ih]
    · rw [map_cons, filter_cons_of_neg (by simp [hpf]), filter_cons_of_neg (by simp [hp]), ih]

section Keys
variable {κ : Type} [BEq κ] [LawfulBEq κ] {key : α → κ} {xs : List α} {k : κ} {x : α}

/-- Under distinct keys, a member is what is found under its key. -/
theorem find?_key_eq_some (distinct : (xs.map key).Nodup) : xs.find? (key · == k) = some x ↔ x ∈ xs ∧ key x = k := by
  constructor
  · intro h
    exact ⟨mem_of_find?_eq_some h, by simpa using find?_some h⟩
  · rintro ⟨hx, rfl⟩
    cases h : xs.find? (key · == key x) with
    | none => exact absurd (beq_self_eq_true _) (find?_eq_none.mp h x hx)
    | some y =>
      have hkey : key y = key x := by simpa using find?_some h
      rw [inj_on_of_nodup_map distinct (mem_of_find?_eq_some h) hx hkey]

theorem find?_key_eq_none : xs.find? (key · == k) = none ↔ k ∉ xs.map key := by
  rw [find?_eq_none, mem_map]
  constructor
  · rintro h ⟨x, hx, rfl⟩
    exact h x hx (beq_self_eq_true _)
  · intro h x hx heq
    exact h ⟨x, hx, beq_iff_eq.mp heq⟩

/-- Under distinct keys, an entry is what is looked up under its key. -/
theorem lookup_of_mem {entries : List (κ × β)} {b : β} (distinct : (entries.map (·.1)).Nodup) (h : (k, b) ∈ entries) :
    entries.lookup k = some b := by
  obtain ⟨before, after, rfl⟩ := append_of_mem h
  refine lookup_eq_some_iff.mpr ⟨before, after, rfl, fun entry hentry => ?_⟩
  rw [map_append, map_cons] at distinct
  exact bne_iff_ne.mpr fun heq => (nodup_append'.mp distinct).2.2 (mem_map_of_mem hentry) (mem_cons.mpr (.inl heq.symm))

theorem mem_of_lookup {entries : List (κ × β)} {b : β} (h : entries.lookup k = some b) : (k, b) ∈ entries := by
  obtain ⟨before, after, rfl, -⟩ := lookup_eq_some_iff.mp h
  exact mem_append_right _ mem_cons_self

/-- An entry with a key of its own is looked up, however often it is listed. -/
theorem lookup_filterMap_key {entry : κ → Option (κ × β)} {keys : List κ} (hkey : ∀ k p, entry k = some p → p.1 = k)
    (h : k ∈ keys) : (keys.filterMap entry).lookup k = (entry k).map (·.2) := by
  induction keys with
  | nil => cases h
  | cons k' keys ih =>
    by_cases heq : k = k'
    · subst heq
      cases hentry : entry k with
      | none =>
        rw [filterMap_cons_none hentry, Option.map_none, lookup_eq_none_iff]
        intro p hp
        obtain ⟨k', -, hk'⟩ := mem_filterMap.mp hp
        refine bne_iff_ne.mpr fun hpk => ?_
        rw [hkey k' p hk'] at hpk
        rw [← hpk, hentry] at hk'
        cases hk'
      | some p =>
        obtain ⟨k', b⟩ := p
        obtain rfl := hkey k _ hentry
        rw [filterMap_cons_some hentry, lookup_cons_self, Option.map_some]
    · have hrest := ih ((mem_cons.mp h).resolve_left heq)
      cases hentry : entry k' with
      | none => rw [filterMap_cons_none hentry, hrest]
      | some p =>
        obtain ⟨k'', b⟩ := p
        obtain rfl := hkey k' _ hentry
        rw [filterMap_cons_some hentry, lookup_cons, beq_eq_false_iff_ne.mpr heq]
        exact hrest

end Keys

end List
