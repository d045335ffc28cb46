import Mathlib.Data.Finmap

/-! # Finite maps: entries, filters, values mapped, and maps read from lists -/

namespace Finmap
variable {α : Type} {β γ : α → Type}

/-- Some entry satisfies a predicate exactly when some key is mapped to a value that does. -/
theorem exists_entry [DecidableEq α] {s : Finmap β} {p : ∀ a, β a → Prop} :
    (∃ e ∈ s.entries, p e.1 e.2) ↔ ∃ a b, s.lookup a = some b ∧ p a b := by
  constructor
  · rintro ⟨⟨a, b⟩, he, hp⟩
    exact ⟨a, b, mem_lookup_iff.mpr he, hp⟩
  · rintro ⟨a, b, h, hp⟩
    exact ⟨⟨a, b⟩, mem_lookup_iff.mp h, hp⟩

theorem forall_entry [DecidableEq α] {s : Finmap β} {p : ∀ a, β a → Prop} :
    (∀ e ∈ s.entries, p e.1 e.2) ↔ ∀ a b, s.lookup a = some b → p a b :=
  ⟨fun h a b hb => h ⟨a, b⟩ (mem_lookup_iff.mp hb), fun h e he => h e.1 e.2 (mem_lookup_iff.mpr he)⟩

/-- The entries of `s` that satisfy `p`. -/
def filter (p : Sigma β → Bool) (s : Finmap β) : Finmap β where
  entries := s.entries.filter (p · = true)
  nodupKeys := by
    obtain ⟨⟨l⟩, hl⟩ := s
    exact List.NodupKeys.sublist List.filter_sublist hl

/-- Applies `f` to every value. -/
def mapVal (f : ∀ a, β a → γ a) (s : Finmap β) : Finmap γ where
  entries := s.entries.map fun e => ⟨e.1, f e.1 e.2⟩
  nodupKeys := by
    obtain ⟨⟨l⟩, hl⟩ := s
    refine (Multiset.coe_nodupKeys (l := l.map fun e => (⟨e.1, f e.1 e.2⟩ : Sigma γ))).mpr ?_
    have hkeys : (l.map fun e => (⟨e.1, f e.1 e.2⟩ : Sigma γ)).keys = l.keys := by simp [List.keys, Function.comp_def]
    rw [List.NodupKeys, hkeys]
    exact hl

variable [DecidableEq α]

theorem lookup_filter (p : Sigma β → Bool) (s : Finmap β) (a : α) :
    (s.filter p).lookup a = (s.lookup a).filter fun b => p ⟨a, b⟩ := by
  ext b
  rw [← Option.mem_def, ← Option.mem_def, mem_lookup_iff, filter, Multiset.mem_filter, ← mem_lookup_iff]
  simp [Option.filter_eq_some_iff]

theorem lookup_mapVal (f : ∀ a, β a → γ a) (s : Finmap β) (a : α) :
    (s.mapVal f).lookup a = (s.lookup a).map (f a) := by
  ext c
  rw [← Option.mem_def, mem_lookup_iff, mapVal, Multiset.mem_map, Option.map_eq_some_iff]
  constructor
  · rintro ⟨⟨a', b⟩, he, heq⟩
    obtain ⟨rfl, heq⟩ := Sigma.mk.inj heq
    obtain rfl := eq_of_heq heq
    exact ⟨b, mem_lookup_iff.mpr he, rfl⟩
  · rintro ⟨b, hb, rfl⟩
    exact ⟨⟨a, b⟩, mem_lookup_iff.mp hb, rfl⟩

theorem lookup_union (s t : Finmap β) (a : α) : (s ∪ t).lookup a = (s.lookup a).or (t.lookup a) := by
  cases h : s.lookup a with
  | none => simp [lookup_union_right (lookup_eq_none.mp h)]
  | some b => simp [lookup_union_left (mem_of_lookup_eq_some h), h]

theorem lookup_insert' {δ : Type} (s : Finmap fun _ : α => δ) (a a' : α) (b : δ) :
    (s.insert a b).lookup a' = if a = a' then some b else s.lookup a' := by
  split
  · rename_i h
    subst h
    exact lookup_insert s
  · rename_i h
    exact lookup_insert_of_ne s (Ne.symm h)

theorem lookup_erase' (s : Finmap β) (a a' : α) : (s.erase a).lookup a' = if a = a' then none else s.lookup a' := by
  split
  · rename_i h
    subst h
    exact lookup_erase a s
  · rename_i h
    exact lookup_erase_ne (Ne.symm h)

/-- The map read from a list without repeated keys has the entries of the list. -/
theorem lookup_toFinmap_eq_some {l : List (Sigma β)} (h : l.NodupKeys) {a : α} {b : β a} :
    l.toFinmap.lookup a = some b ↔ ⟨a, b⟩ ∈ l := by
  rw [dlookup_list_toFinmap]
  exact List.mem_dlookup_iff h

end Finmap
