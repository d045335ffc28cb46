import Djangors.Lib.Except
import Mathlib.Data.List.Nodup
import Mathlib.Logic.Relation

/-! # Depth-first search in postorder

Two searches of a graph whose nodes are told apart by a key: one that marks a node when it enters it,
and one that also refuses to enter a node it has not left yet. The recursion takes a bound on its depth,
and any bound above the number of nodes gives the same result. -/

namespace Dfs
variable {α κ : Type}

structure State (α κ : Type) where
  visited : List κ
  order : List α

section Searches
variable [DecidableEq κ] (key : α → κ)

/-- Enters `a` unless it is marked, and lists it when everything next to it has been visited. -/
def visit (next : α → List α) : Nat → α → State α κ → State α κ
  | 0, _, s => s
  | n + 1, a, s =>
    if key a ∈ s.visited then s
    else
      let s' := (next a).foldl (fun s b => visit next n b s) { s with visited := key a :: s.visited }
      { s' with order := s'.order ++ [a] }

/-- Visits every node of a list. -/
def visitAll (next : α → List α) (n : Nat) (as : List α) (s : State α κ) : State α κ :=
  as.foldl (fun s a => visit key next n a s) s

structure Guarded (α κ : Type) where
  visiting : List κ
  visited : List κ
  order : List α

/-- The same search, which fails with the nodes it is inside of when it meets one of them. -/
def search (next : α → List α) : Nat → α → Guarded α κ → Except (List κ) (Guarded α κ)
  | 0, _, s => .ok s
  | n + 1, a, s =>
    if key a ∈ s.visited then .ok s
    else if key a ∈ s.visiting then .error s.visiting
    else do
      let s' ← (next a).foldlM (fun s b => search next n b s) { s with visiting := key a :: s.visiting }
      return ⟨s'.visiting.erase (key a), key a :: s'.visited, s'.order ++ [a]⟩

def searchAll (next : α → List α) (n : Nat) (as : List α) (s : Guarded α κ) : Except (List κ) (Guarded α κ) :=
  as.foldlM (fun s a => search key next n a s) s

end Searches

variable {key : α → κ} {next : α → List α} {U : List α}

/-- The list `U` holds whatever is next to its nodes. -/
def Closed (next : α → List α) (U : List α) : Prop := ∀ a ∈ U, ∀ b ∈ next a, b ∈ U

/-- A way from a node of a closed list stays in the list. -/
theorem transGen_closed (closed : Closed next U) {a b : α} (ha : a ∈ U)
    (h : Relation.TransGen (fun x y => y ∈ next x) a b) :
    b ∈ U ∧ Relation.TransGen (fun x y => x ∈ U ∧ y ∈ next x) a b := by
  induction h with
  | single hb => exact ⟨closed a ha _ hb, .single ⟨ha, hb⟩⟩
  | tail _ hc ih => exact ⟨closed _ ih.1 _ hc, ih.2.tail ⟨ih.1, hc⟩⟩

/-! ### What a visit adds -/

/-- From `s` to `t` the nodes `added` were listed, all of them new. -/
structure Adds (key : α → κ) (U : List α) (s t : State α κ) (added : List α) : Prop where
  order : t.order = s.order ++ added
  visited : ∀ k, k ∈ t.visited ↔ k ∈ s.visited ∨ k ∈ added.map key
  nodup : (added.map key).Nodup
  fresh : ∀ x ∈ added, key x ∉ s.visited
  mem : ∀ x ∈ added, x ∈ U

theorem Adds.refl (s : State α κ) : Adds key U s s [] :=
  ⟨by simp, by simp, by simp, by simp, by simp⟩

theorem Adds.trans {s t u : State α κ} {xs ys : List α} (h : Adds key U s t xs) (h' : Adds key U t u ys) :
    Adds key U s u (xs ++ ys) where
  order := by rw [h'.order, h.order, List.append_assoc]
  visited k := by rw [h'.visited, h.visited, List.map_append, List.mem_append, or_assoc]
  nodup := by
    rw [List.map_append]
    refine h.nodup.append h'.nodup fun k hk hk' => ?_
    obtain ⟨y, hy, rfl⟩ := List.mem_map.mp hk'
    exact h'.fresh y hy ((h.visited _).mpr (.inr hk))
  fresh x hx := by
    rcases List.mem_append.mp hx with hx | hx
    · exact h.fresh x hx
    · exact fun hv => h'.fresh x hx ((h.visited _).mpr (.inl hv))
  mem x hx := (List.mem_append.mp hx).elim (h.mem x) (h'.mem x)

theorem adds_foldl {f : State α κ → α → State α κ} {bs : List α} (s : State α κ)
    (h : ∀ b ∈ bs, ∀ s, ∃ added, Adds key U s (f s b) added) : ∃ added, Adds key U s (bs.foldl f s) added := by
  induction bs generalizing s with
  | nil => exact ⟨[], .refl s⟩
  | cons b bs ih =>
    obtain ⟨xs, hxs⟩ := h b (by simp) s
    obtain ⟨ys, hys⟩ := ih (f s b) fun b hb => h b (by simp [hb])
    exact ⟨xs ++ ys, hxs.trans hys⟩

section Visits
variable [DecidableEq κ]

variable (key) in
theorem visit_adds (closed : Closed next U) (n : Nat) {a : α} (ha : a ∈ U) (s : State α κ) :
    ∃ added, Adds key U s (visit key next n a s) added := by
  induction n generalizing a s with
  | zero => exact ⟨[], .refl s⟩
  | succ n ih =>
    rw [visit]
    split
    · exact ⟨[], .refl s⟩
    · rename_i hnew
      obtain ⟨xs, h⟩ := adds_foldl (U := U) { s with visited := key a :: s.visited }
        fun b hb s => ih (closed a ha b hb) s
      have hfresh : key a ∉ xs.map key := by
        intro hmem
        obtain ⟨x, hx, heq⟩ := List.mem_map.mp hmem
        exact h.fresh x hx (by simp [heq])
      refine ⟨xs ++ [a], ?_, fun k => ?_, ?_, ?_, ?_⟩
      · simp [h.order]
      · rw [h.visited]
        simp only [List.mem_cons, List.map_append, List.map_cons, List.map_nil, List.mem_append, List.not_mem_nil,
          or_false]
        tauto
      · rw [List.map_append]
        exact h.nodup.append (by simp) (by simpa using hfresh)
      · intro x hx
        rcases List.mem_append.mp hx with hx | hx
        · exact fun hv => h.fresh x hx (by simp [hv])
        · obtain rfl := List.mem_singleton.mp hx
          exact hnew
      · intro x hx
        rcases List.mem_append.mp hx with hx | hx
        · exact h.mem x hx
        · obtain rfl := List.mem_singleton.mp hx
          exact ha

theorem visit_marks (closed : Closed next U) (n : Nat) {a : α} (ha : a ∈ U) (s : State α κ) :
    key a ∈ (visit key next (n + 1) a s).visited := by
  rw [visit]
  split
  · assumption
  · obtain ⟨xs, h⟩ := adds_foldl (U := U) { s with visited := key a :: s.visited }
      fun b hb s => visit_adds key closed n (closed a ha b hb) s
    exact (h.visited _).mpr (.inl (by simp))

variable (key) in
theorem visitAll_adds (closed : Closed next U) (n : Nat) {as : List α} (has : ∀ a ∈ as, a ∈ U) (s : State α κ) :
    ∃ added, Adds key U s (visitAll key next n as s) added :=
  adds_foldl s fun a ha s => visit_adds key closed n (has a ha) s

theorem visitAll_marks (closed : Closed next U) (n : Nat) {as : List α} (has : ∀ a ∈ as, a ∈ U) (s : State α κ) :
    ∀ a ∈ as, key a ∈ (visitAll key next (n + 1) as s).visited := by
  induction as generalizing s with
  | nil => simp
  | cons b as ih =>
    intro a ha
    have hmem : ∀ a ∈ as, a ∈ U := fun a ha => has a (by simp [ha])
    rcases List.mem_cons.mp ha with rfl | ha
    · obtain ⟨xs, h⟩ := visitAll_adds key closed (n + 1) hmem (visit key next (n + 1) a s)
      exact (h.visited _).mpr (.inl (visit_marks closed n (has a (by simp)) s))
    · exact ih hmem _ a ha

/-- Visiting all nodes lists each of them once. -/
theorem visitAll_perm (closed : Closed next U) (distinct : (U.map key).Nodup) (n : Nat) :
    (visitAll key next (n + 1) U ⟨[], []⟩).order.Perm U := by
  obtain ⟨added, h⟩ := visitAll_adds key closed (n + 1) (fun a ha => ha) ⟨[], []⟩
  have horder : (visitAll key next (n + 1) U ⟨[], []⟩).order = added := h.order
  rw [horder]
  refine (List.perm_ext_iff_of_nodup h.nodup.of_map distinct.of_map).mpr fun a => ⟨h.mem a, fun ha => ?_⟩
  have hmarked := (h.visited _).mp (visitAll_marks closed n (fun a ha => ha) ⟨[], []⟩ a ha)
  obtain ⟨x, hx, heq⟩ := List.mem_map.mp (hmarked.resolve_left (by simp))
  rwa [← List.inj_on_of_nodup_map distinct (h.mem x hx) ha heq]

/-! ### The bound on the depth -/

/-- The number of nodes that are not marked yet. -/
def unvisited (key : α → κ) (U : List α) (visited : List κ) : Nat := (U.filter fun x => key x ∉ visited).length

theorem unvisited_mono {vs vs' : List κ} (h : ∀ k ∈ vs, k ∈ vs') : unvisited key U vs' ≤ unvisited key U vs := by
  refine (List.monotone_filter_right U fun x hx => ?_).length_le
  simp only [decide_eq_true_eq] at hx ⊢
  exact fun hv => hx (h _ hv)

/-- Marking a node leaves one node fewer. -/
theorem unvisited_lt {vs vs' : List κ} {a : α} (ha : a ∈ U) (hnew : key a ∉ vs) (hold : key a ∈ vs')
    (h : ∀ k ∈ vs, k ∈ vs') : unvisited key U vs' < unvisited key U vs := by
  refine Nat.lt_of_le_of_ne (unvisited_mono h) fun heq => ?_
  have hsub : (U.filter fun x => key x ∉ vs').Sublist (U.filter fun x => key x ∉ vs) :=
    List.monotone_filter_right U fun x hx => by
      simp only [decide_eq_true_eq] at hx ⊢
      exact fun hv => hx (h _ hv)
  have hmem : a ∈ U.filter fun x => key x ∉ vs := by simp [ha, hnew]
  rw [← hsub.eq_of_length heq] at hmem
  simp [hold] at hmem

theorem visit_succ (closed : Closed next U) {n : Nat} {a : α} (ha : a ∈ U) {s : State α κ}
    (bound : unvisited key U s.visited < n) : visit key next (n + 1) a s = visit key next n a s := by
  induction n generalizing a s with
  | zero => cases bound
  | succ n ih =>
    rw [visit, visit]
    split
    · rfl
    · rename_i hnew
      -- every state of the inner loop has `a` marked, so the bound holds one level down
      have inner : ∀ (bs : List α) (t : State α κ), (∀ b ∈ bs, b ∈ next a) → (∀ k ∈ key a :: s.visited, k ∈ t.visited) →
          bs.foldl (fun s b => visit key next (n + 1) b s) t = bs.foldl (fun s b => visit key next n b s) t := by
        intro bs
        induction bs with
        | nil => exact fun _ _ _ => rfl
        | cons b bs ihb =>
          intro t hbs hmarked
          have hb := closed a ha b (hbs b (by simp))
          have hless := unvisited_lt ha hnew (hmarked (key a) (by simp)) fun k hk => hmarked k (by simp [hk])
          rw [List.foldl_cons, List.foldl_cons, ih hb (by omega)]
          refine ihb _ (fun b hb => hbs b (by simp [hb])) fun k hk => ?_
          obtain ⟨added, h⟩ := visit_adds key closed n hb t
          exact (h.visited k).mpr (.inl (hmarked k hk))
      rw [inner (next a) { s with visited := key a :: s.visited } (fun b hb => hb) fun k hk => hk]

theorem visit_le (closed : Closed next U) {n m : Nat} {a : α} (ha : a ∈ U) {s : State α κ}
    (bound : unvisited key U s.visited < n) (hnm : n ≤ m) : visit key next m a s = visit key next n a s := by
  induction hnm with
  | refl => rfl
  | step hm ih => rw [visit_succ closed ha (Nat.lt_of_lt_of_le bound hm), ih]

/-- Any two bounds above the number of nodes give the same order. -/
theorem visitAll_le (closed : Closed next U) {n m : Nat} (bound : U.length < n) (hnm : n ≤ m) {as : List α}
    (has : ∀ a ∈ as, a ∈ U) (s : State α κ) : visitAll key next m as s = visitAll key next n as s := by
  induction as generalizing s with
  | nil => rfl
  | cons a as ih =>
    have hlen : unvisited key U s.visited ≤ U.length := List.length_filter_le ..
    rw [visitAll, List.foldl_cons, visit_le closed (has a (by simp)) (by omega) hnm]
    exact ih (fun a ha => has a (by simp [ha])) _

/-! ### Visiting an image -/

def State.map {β : Type} (φ : α → β) (s : State α κ) : State β κ := ⟨s.visited, s.order.map φ⟩

/-- A map that keeps keys and arrows takes a search to a search. -/
theorem visit_map {β : Type} {φ : α → β} {key' : β → κ} {next' : β → List β} (closed : Closed next U)
    (hkey : ∀ a ∈ U, key' (φ a) = key a) (hnext : ∀ a ∈ U, next' (φ a) = (next a).map φ) (n : Nat) {a : α}
    (ha : a ∈ U) (s : State α κ) : visit key' next' n (φ a) (s.map φ) = (visit key next n a s).map φ := by
  induction n generalizing a s with
  | zero => rfl
  | succ n ih =>
    have inner : ∀ (bs : List α) (s : State α κ), (∀ b ∈ bs, b ∈ next a) →
        (bs.map φ).foldl (fun s b => visit key' next' n b s) (s.map φ) =
          (bs.foldl (fun s b => visit key next n b s) s).map φ := by
      intro bs
      induction bs with
      | nil => exact fun _ _ => rfl
      | cons b bs ihb =>
        intro s hbs
        rw [List.map_cons, List.foldl_cons, List.foldl_cons, ih (closed a ha b (hbs b (by simp)))]
        exact ihb _ fun b hb => hbs b (by simp [hb])
    rw [visit, visit, hkey a ha, hnext a ha]
    by_cases hold : key a ∈ s.visited
    · rw [if_pos hold, if_pos (show key a ∈ (s.map φ).visited from hold)]
    · rw [if_neg hold, if_neg (show key a ∉ (s.map φ).visited from hold)]
      have h := inner (next a) { s with visited := key a :: s.visited } fun b hb => hb
      simp only [State.map] at h ⊢
      simp [h]

theorem visitAll_map {β : Type} {φ : α → β} {key' : β → κ} {next' : β → List β} (closed : Closed next U)
    (hkey : ∀ a ∈ U, key' (φ a) = key a) (hnext : ∀ a ∈ U, next' (φ a) = (next a).map φ) (n : Nat) {as : List α}
    (has : ∀ a ∈ as, a ∈ U) (s : State α κ) :
    visitAll key' next' n (as.map φ) (s.map φ) = (visitAll key next n as s).map φ := by
  induction as generalizing s with
  | nil => rfl
  | cons a as ih =>
    rw [List.map_cons, visitAll, List.foldl_cons, visit_map closed hkey hnext n (has a (by simp))]
    exact ih (fun a ha => has a (by simp [ha])) _

/-! ### Visiting a part -/

section Part
variable {next' : α → List α} {P : α → Bool}

/-- The state `t` is the part of `s` on the nodes of `P`. -/
structure Part (key : α → κ) (U : List α) (P : α → Bool) (s t : State α κ) : Prop where
  order : t.order = s.order.filter P
  visited : ∀ a ∈ U, P a → (key a ∈ t.visited ↔ key a ∈ s.visited)

/-- No arrow leads into the part or out of it, and inside it both graphs are the same. -/
structure Separate (key : α → κ) (next next' : α → List α) (U : List α) (P : α → Bool) : Prop where
  closed : Closed next U
  distinct : (U.map key).Nodup
  stays : ∀ a ∈ U, ∀ b ∈ next a, P b = P a
  same : ∀ a ∈ U, P a → next' a = next a

theorem visit_outside (sep : Separate key next next' U P) (n : Nat) {a : α} (ha : a ∈ U) (hP : P a = false)
    {s t : State α κ} (h : Part key U P s t) : Part key U P (visit key next n a s) t := by
  induction n generalizing a s with
  | zero => exact h
  | succ n ih =>
    rw [visit]
    split
    · exact h
    · have inner : ∀ (bs : List α) (s : State α κ), (∀ b ∈ bs, b ∈ next a) → Part key U P s t →
          Part key U P (bs.foldl (fun s b => visit key next n b s) s) t := by
        intro bs
        induction bs with
        | nil => exact fun _ _ hs => hs
        | cons b bs ihb =>
          intro s hbs hs
          have hb := hbs b (by simp)
          exact ihb _ (fun b hb => hbs b (by simp [hb]))
            (ih (sep.closed a ha b hb) ((sep.stays a ha b hb).trans hP) hs)
      have marked : Part key U P { s with visited := key a :: s.visited } t := by
        refine ⟨h.order, fun b hb hPb => ?_⟩
        rw [h.visited b hb hPb, List.mem_cons, iff_or_self]
        intro heq
        rw [List.inj_on_of_nodup_map sep.distinct hb ha heq, hP] at hPb
        cases hPb
      have h' := inner (next a) _ (fun b hb => hb) marked
      refine ⟨?_, h'.visited⟩
      rw [h'.order]
      simp [hP]

theorem visit_inside (sep : Separate key next next' U P) (n : Nat) {a : α} (ha : a ∈ U) (hP : P a = true)
    {s t : State α κ} (h : Part key U P s t) : Part key U P (visit key next n a s) (visit key next' n a t) := by
  induction n generalizing a s t with
  | zero => exact h
  | succ n ih =>
    rw [visit, visit, sep.same a ha hP]
    by_cases hold : key a ∈ s.visited
    · rwa [if_pos hold, if_pos ((h.visited a ha hP).mpr hold)]
    · rw [if_neg hold, if_neg fun hv => hold ((h.visited a ha hP).mp hv)]
      have inner : ∀ (bs : List α) (s t : State α κ), (∀ b ∈ bs, b ∈ next a) → Part key U P s t →
          Part key U P (bs.foldl (fun s b => visit key next n b s) s) (bs.foldl (fun s b => visit key next' n b s) t) := by
        intro bs
        induction bs with
        | nil => exact fun _ _ _ hs => hs
        | cons b bs ihb =>
          intro s t hbs hs
          have hb := hbs b (by simp)
          exact ihb _ _ (fun b hb => hbs b (by simp [hb]))
            (ih (sep.closed a ha b hb) ((sep.stays a ha b hb).trans hP) hs)
      have marked : Part key U P { s with visited := key a :: s.visited } { t with visited := key a :: t.visited } :=
        ⟨h.order, fun b hb hPb => by simp [h.visited b hb hPb]⟩
      have h' := inner (next a) _ _ (fun b hb => hb) marked
      refine ⟨?_, h'.visited⟩
      simp [h'.order, hP]

/-- A search of the whole graph lists the nodes of a separate part in the order of a search of the part. -/
theorem visitAll_part (sep : Separate key next next' U P) (n : Nat) {as : List α} (has : ∀ a ∈ as, a ∈ U)
    {s t : State α κ} (h : Part key U P s t) :
    Part key U P (visitAll key next n as s) (visitAll key next' n (as.filter P) t) := by
  induction as generalizing s t with
  | nil => exact h
  | cons a as ih =>
    have hmem : ∀ a ∈ as, a ∈ U := fun a ha => has a (by simp [ha])
    cases hP : P a with
    | true =>
      rw [List.filter_cons_of_pos hP]
      exact ih hmem (visit_inside sep n (has a (by simp)) hP h)
    | false =>
      rw [List.filter_cons_of_neg (by simp [hP])]
      exact ih hmem (visit_outside sep n (has a (by simp)) hP h)

end Part

end Visits

/-! ### The guarded search -/

/-- A node is marked in `v` when it is marked in `g` or `g` is inside of it. -/
structure Agrees (g : Guarded α κ) (v : State α κ) : Prop where
  order : v.order = g.order
  visited : ∀ k, k ∈ v.visited ↔ k ∈ g.visited ∨ k ∈ g.visiting

/-- No node is marked while the search is inside of it. -/
def Apart (g : Guarded α κ) : Prop := ∀ k ∈ g.visited, k ∉ g.visiting

/-- What a guarded search that succeeds leaves behind: it is inside of the same nodes as before, and no
    mark is lost. -/
structure Searched (g g' : Guarded α κ) : Prop where
  visiting : g'.visiting = g.visiting
  visited : ∀ k ∈ g.visited, k ∈ g'.visited
  apart : Apart g → Apart g'

theorem Searched.refl (g : Guarded α κ) : Searched g g := ⟨rfl, fun _ hk => hk, fun h => h⟩

theorem Searched.trans {g g' g'' : Guarded α κ} (h : Searched g g') (h' : Searched g' g'') : Searched g g'' :=
  ⟨h'.visiting.trans h.visiting, fun k hk => h'.visited k (h.visited k hk), fun ha => h'.apart (h.apart ha)⟩

section Guards
variable [DecidableEq κ]

/-- The three things a search at a node can do. -/
theorem search_cases {n : Nat} {a : α} {g g' : Guarded α κ} (h : search key next (n + 1) a g = .ok g') :
    (key a ∈ g.visited ∧ g' = g) ∨
      (key a ∉ g.visited ∧ key a ∉ g.visiting ∧
        ∃ t, (next a).foldlM (fun s b => search key next n b s) { g with visiting := key a :: g.visiting } = .ok t ∧
          g' = ⟨t.visiting.erase (key a), key a :: t.visited, t.order ++ [a]⟩) := by
  rw [search] at h
  split at h
  · cases h
    exact .inl ⟨by assumption, rfl⟩
  · rename_i hnew
    split at h
    · cases h
    · rename_i houtside
      obtain ⟨t, ht, h⟩ := Except.bind_eq_ok.mp h
      cases h
      exact .inr ⟨hnew, houtside, t, ht, rfl⟩

theorem search_searched {n : Nat} {a : α} {g g' : Guarded α κ} (h : search key next n a g = .ok g') :
    Searched g g' := by
  induction n generalizing a g g' with
  | zero =>
    cases h
    exact .refl g
  | succ n ih =>
    rcases search_cases h with ⟨_, rfl⟩ | ⟨hnew, houtside, t, ht, rfl⟩
    · exact .refl g'
    · have inner := Except.foldlM_induct (P := Searched { g with visiting := key a :: g.visiting }) ht (.refl _)
        fun b _ s s' hs hb => hs.trans (ih hb)
      refine ⟨by simp [inner.visiting], fun k hk => by simp [inner.visited k hk], fun hapart => ?_⟩
      have hinner : Apart t := inner.apart fun k hk => by
        rw [List.mem_cons, not_or]
        exact ⟨fun heq => hnew (heq ▸ hk), hapart k hk⟩
      intro k hk
      simp only [inner.visiting, List.erase_cons_head]
      rcases List.mem_cons.mp hk with rfl | hk
      · exact houtside
      · have := hinner k hk
        rw [inner.visiting, List.mem_cons, not_or] at this
        exact this.2

/-- The search is inside of nothing but nodes that lead to `a`. -/
def Reaches (key : α → κ) (next : α → List α) (U : List α) (g : Guarded α κ) (a : α) : Prop :=
  ∀ k ∈ g.visiting, ∃ x ∈ U, key x = k ∧ Relation.TransGen (fun x y => y ∈ next x) x a

variable (key) in
/-- The search of a graph without cycles succeeds. -/
theorem search_ok (closed : Closed next U) (distinct : (U.map key).Nodup)
    (acyclic : ∀ a ∈ U, ¬ Relation.TransGen (fun x y => y ∈ next x) a a) (n : Nat) {a : α} (ha : a ∈ U)
    {g : Guarded α κ} (inside : Reaches key next U g a) : ∃ g', search key next n a g = .ok g' := by
  induction n generalizing a g with
  | zero => exact ⟨g, rfl⟩
  | succ n ih =>
    rw [search]
    split
    · exact ⟨g, rfl⟩
    · split
      · rename_i hmem
        obtain ⟨x, hx, heq, hreach⟩ := inside _ hmem
        rw [List.inj_on_of_nodup_map distinct hx ha heq] at hreach
        exact absurd hreach (acyclic a ha)
      · have inner : ∃ t, (next a).foldlM (fun s b => search key next n b s)
            { g with visiting := key a :: g.visiting } = .ok t ∧ t.visiting = key a :: g.visiting := by
          refine Except.foldlM_ok rfl fun b hb s hs => ?_
          have hstep : Relation.TransGen (fun x y => y ∈ next x) a b := .single hb
          obtain ⟨s', hs'⟩ := ih (closed a ha b hb) (g := s) fun k hk => by
            rw [hs] at hk
            rcases List.mem_cons.mp hk with rfl | hk
            · exact ⟨a, ha, rfl, hstep⟩
            · obtain ⟨x, hx, heq, hreach⟩ := inside k hk
              exact ⟨x, hx, heq, hreach.trans hstep⟩
          exact ⟨s', hs', (search_searched hs').visiting.trans hs⟩
        obtain ⟨t, ht, _⟩ := inner
        exact ⟨_, Except.bind_eq_ok.mpr ⟨t, ht, rfl⟩⟩

omit [DecidableEq κ] in
theorem agrees_foldl {f : Guarded α κ → α → Except (List κ) (Guarded α κ)} {f' : State α κ → α → State α κ}
    {bs : List α} {g g' : Guarded α κ} {v : State α κ}
    (step : ∀ b ∈ bs, ∀ g g' v, Agrees g v → f g b = .ok g' → Agrees g' (f' v b)) (hv : Agrees g v)
    (h : bs.foldlM f g = .ok g') : Agrees g' (bs.foldl f' v) := by
  induction bs generalizing g v with
  | nil =>
    cases h
    exact hv
  | cons b bs ih =>
    rw [List.foldlM_cons] at h
    obtain ⟨t, ht, h⟩ := Except.bind_eq_ok.mp h
    exact ih (fun b hb => step b (by simp [hb])) (step b (by simp) _ _ _ hv ht) h

/-- A guarded search that succeeds has done what the plain search does. -/
theorem search_agrees {n : Nat} {a : α} {g g' : Guarded α κ} {v : State α κ} (hv : Agrees g v)
    (h : search key next n a g = .ok g') : Agrees g' (visit key next n a v) := by
  induction n generalizing a g g' v with
  | zero =>
    cases h
    exact hv
  | succ n ih =>
    rw [visit]
    rcases search_cases h with ⟨hold, rfl⟩ | ⟨hnew, houtside, t, ht, rfl⟩
    · rwa [if_pos ((hv.visited _).mpr (.inl hold))]
    · rw [if_neg fun hm => ((hv.visited _).mp hm).elim hnew houtside]
      have entered : Agrees { g with visiting := key a :: g.visiting } { v with visited := key a :: v.visited } :=
        ⟨hv.order, fun k => by simp only [List.mem_cons, hv.visited]; tauto⟩
      have left : Agrees t ((next a).foldl (fun s b => visit key next n b s) { v with visited := key a :: v.visited }) :=
        agrees_foldl (fun b _ g g' v hv h => ih hv h) entered ht
      have inside : t.visiting = key a :: g.visiting :=
        Except.foldlM_induct (P := fun s => s.visiting = key a :: g.visiting) ht rfl
          fun b _ s s' hs hb => (search_searched hb).visiting.trans hs
      refine ⟨congrArg (· ++ [a]) left.order, fun k => ?_⟩
      simp only [left.visited, inside, List.mem_cons, List.erase_cons_head]
      tauto

/-- Inside of a new node there is one node fewer to enter. -/
theorem unvisited_entered {a : α} (ha : a ∈ U) {g s : Guarded α κ} (hnew : key a ∉ g.visited)
    (houtside : key a ∉ g.visiting) (hs : Searched { g with visiting := key a :: g.visiting } s) :
    unvisited key U (s.visited ++ s.visiting) < unvisited key U (g.visited ++ g.visiting) := by
  refine unvisited_lt ha (by simp [hnew, houtside]) (by simp [hs.visiting]) fun k hk => ?_
  rcases List.mem_append.mp hk with hk | hk
  · exact List.mem_append_left _ (hs.visited k hk)
  · simp [hs.visiting, hk]

/-- No marked node has an arrow to itself. -/
def Loopless (key : α → κ) (next : α → List α) (U : List α) (g : Guarded α κ) : Prop :=
  ∀ x ∈ U, key x ∈ g.visited → x ∉ next x

/-- A guarded search that succeeds has met no arrow from a node to itself. -/
theorem search_loopless (closed : Closed next U) (distinct : (U.map key).Nodup) {n : Nat} {a : α} (ha : a ∈ U)
    {g g' : Guarded α κ} (bound : unvisited key U (g.visited ++ g.visiting) < n) (apart : Apart g)
    (loopless : Loopless key next U g) (h : search key next n a g = .ok g') : Loopless key next U g' := by
  induction n generalizing a g g' with
  | zero => cases bound
  | succ n ih =>
    rcases search_cases h with ⟨_, rfl⟩ | ⟨hnew, houtside, t, ht, rfl⟩
    · exact loopless
    · let entered : Guarded α κ := { g with visiting := key a :: g.visiting }
      have hmarked : ∀ s : Guarded α κ, Searched entered s → unvisited key U (s.visited ++ s.visiting) < n :=
        fun s hs => Nat.lt_of_lt_of_le (unvisited_entered ha hnew houtside hs) (Nat.le_of_lt_succ bound)
      have happart : Apart entered := fun k hk => by
        simp only [entered, List.mem_cons, not_or]
        exact ⟨fun heq => hnew (heq ▸ hk), apart k hk⟩
      let Inside (s : Guarded α κ) : Prop := Searched entered s ∧ Loopless key next U s
      have start : Inside entered := ⟨.refl _, loopless⟩
      have step : ∀ b ∈ next a, ∀ s s', Inside s → search key next n b s = .ok s' → Inside s' :=
        fun b hb s s' hs h => ⟨hs.1.trans (search_searched h),
          ih (closed a ha b hb) (hmarked s hs.1) (hs.1.apart happart) hs.2 h⟩
      have hinner := Except.foldlM_induct ht start step
      -- inside of `a`, a search at `a` fails
      have hself : a ∉ next a := by
        intro hmem
        obtain ⟨s, s', hs, hsearch⟩ := Except.foldlM_step ht start step a hmem
        have hvisiting : key a ∈ s.visiting := by simp [hs.1.visiting, entered]
        obtain ⟨m, rfl⟩ : ∃ m, n = m + 1 := ⟨n - 1, by have := hmarked s hs.1; omega⟩
        rcases search_cases hsearch with ⟨hold, _⟩ | ⟨_, hout, _⟩
        · exact hs.1.apart happart _ hold hvisiting
        · exact hout hvisiting
      intro x hx hk
      rcases List.mem_cons.mp hk with heq | hk
      · rwa [List.inj_on_of_nodup_map distinct hx ha heq]
      · exact hinner.2 x hx hk

theorem search_succ (closed : Closed next U) {n : Nat} {a : α} (ha : a ∈ U) {g : Guarded α κ}
    (bound : unvisited key U (g.visited ++ g.visiting) < n) :
    search key next (n + 1) a g = search key next n a g := by
  induction n generalizing a g with
  | zero => cases bound
  | succ n ih =>
    rw [search, search]
    split
    · rfl
    · rename_i hnew
      split
      · rfl
      · rename_i houtside
        let entered : Guarded α κ := { g with visiting := key a :: g.visiting }
        have hinner : (next a).foldlM (fun s b => search key next (n + 1) b s) entered =
            (next a).foldlM (fun s b => search key next n b s) entered := by
          refine Except.foldlM_congr (P := Searched entered) (.refl _) (fun b hb s hs => ?_)
            fun b _ s s' hs h => hs.trans (search_searched h)
          exact ih (closed a ha b hb)
            (Nat.lt_of_lt_of_le (unvisited_entered ha hnew houtside hs) (Nat.le_of_lt_succ bound))
        rw [hinner]

theorem search_le (closed : Closed next U) {n m : Nat} {a : α} (ha : a ∈ U) {g : Guarded α κ}
    (bound : unvisited key U (g.visited ++ g.visiting) < n) (hnm : n ≤ m) :
    search key next m a g = search key next n a g := by
  induction hnm with
  | refl => rfl
  | step hm ih => rw [search_succ closed ha (Nat.lt_of_lt_of_le bound hm), ih]

/-- Any two bounds above the number of nodes give the same outcome. -/
theorem searchAll_le (closed : Closed next U) {n m : Nat} (bound : U.length < n) (hnm : n ≤ m) {as : List α}
    (has : ∀ a ∈ as, a ∈ U) (g : Guarded α κ) : searchAll key next m as g = searchAll key next n as g :=
  Except.foldlM_congr (P := fun _ => True) trivial
    (fun a ha _ _ => search_le closed (has a ha) (Nat.lt_of_le_of_lt (List.length_filter_le ..) bound) hnm)
    fun _ _ _ _ _ _ => trivial

/-- A guarded search that succeeds lists the nodes as the plain search does. -/
theorem searchAll_agrees {n : Nat} {as : List α} {g : Guarded α κ}
    (h : searchAll key next n as ⟨[], [], []⟩ = .ok g) : Agrees g (visitAll key next n as ⟨[], []⟩) :=
  agrees_foldl (fun _ _ _ _ _ hv h => search_agrees hv h) ⟨rfl, by simp⟩ h

/-- The guarded search of all nodes succeeds, and lists them as the plain search does, when no arrow
    leads back to where it starts. -/
theorem searchAll_ok (closed : Closed next U) (distinct : (U.map key).Nodup)
    (acyclic : ∀ a ∈ U, ¬ Relation.TransGen (fun x y => y ∈ next x) a a) (n : Nat) :
    ∃ g, searchAll key next n U ⟨[], [], []⟩ = .ok g ∧ g.order = (visitAll key next n U ⟨[], []⟩).order := by
  have outside : ∃ g, searchAll key next n U ⟨[], [], []⟩ = .ok g ∧ g.visiting = [] := by
    refine Except.foldlM_ok rfl fun a ha g hg => ?_
    obtain ⟨g', hg'⟩ := search_ok key closed distinct acyclic n ha (g := g) fun k hk => by simp [hg] at hk
    exact ⟨g', hg', (search_searched hg').visiting.trans hg⟩
  obtain ⟨g, hg, _⟩ := outside
  exact ⟨g, hg, (searchAll_agrees hg).order.symm⟩

/-- A guarded search of all nodes that succeeds has met no arrow from a node to itself. -/
theorem searchAll_loopless (closed : Closed next U) (distinct : (U.map key).Nodup) {n : Nat} (bound : U.length < n)
    {g : Guarded α κ} (h : searchAll key next n U ⟨[], [], []⟩ = .ok g) : ∀ a ∈ U, a ∉ next a := by
  let Outside (g : Guarded α κ) : Prop := g.visiting = [] ∧ Loopless key next U g
  have done : Outside g := Except.foldlM_induct h ⟨rfl, fun x _ hx => by cases hx⟩ fun a ha s s' hs hsearch =>
    ⟨(search_searched hsearch).visiting.trans hs.1,
      search_loopless closed distinct ha (Nat.lt_of_le_of_lt (List.length_filter_le ..) bound)
        (fun k _ => by simp [hs.1]) hs.2 hsearch⟩
  obtain ⟨m, rfl⟩ : ∃ m, n = m + 1 := ⟨n - 1, by omega⟩
  intro a ha
  have marked := ((searchAll_agrees h).visited _).mp (visitAll_marks closed m (fun a ha => ha) ⟨[], []⟩ a ha)
  rw [done.1] at marked
  exact done.2 a ha (marked.resolve_right (by simp))

/-! ### The order of a search -/

/-- Whatever is next to a listed node is listed before it. -/
def Sorted (key : α → κ) (next : α → List α) (order : List α) : Prop :=
  ∀ pre x post, order = pre ++ x :: post → ∀ b ∈ next x, key b ∈ pre.map key

omit [DecidableEq κ] in
theorem Sorted.concat {order : List α} (sorted : Sorted key next order) {a : α}
    (ha : ∀ b ∈ next a, key b ∈ order.map key) : Sorted key next (order ++ [a]) := by
  intro pre x post hsplit
  rcases List.eq_nil_or_concat post with rfl | ⟨post, y, rfl⟩
  · obtain ⟨rfl, rfl⟩ := List.append_singleton_inj.mp hsplit
    exact ha
  · rw [List.concat_eq_append, ← List.cons_append, ← List.append_assoc] at hsplit
    exact sorted pre x post (List.append_singleton_inj.mp hsplit).1

/-- A list of all nodes that is sorted shows that no arrow leads back to where it starts. -/
theorem Sorted.acyclic {order : List α} (sorted : Sorted key next order) (closed : Closed next U)
    (distinct : (U.map key).Nodup) (perm : order.Perm U) :
    ∀ a ∈ U, ¬Relation.TransGen (fun x y => y ∈ next x) a a := by
  have keys : (order.map key).Nodup := (perm.map key).nodup_iff.mpr distinct
  have lower : ∀ a ∈ U, ∀ b ∈ next a, (order.map key).idxOf (key b) < (order.map key).idxOf (key a) := by
    intro a ha b hb
    rcases List.append_of_mem (perm.mem_iff.mpr ha) with ⟨pre, post, rfl⟩
    have hmem := sorted pre a post rfl b hb
    rw [List.map_append, List.map_cons] at keys ⊢
    have hnew : key a ∉ pre.map key := fun h => (List.nodup_append.mp keys).2.2 _ h _ (List.mem_cons_self ..) rfl
    rw [List.idxOf_append_of_mem hmem, List.idxOf_append_of_notMem hnew, List.idxOf_cons_self, Nat.add_zero]
    exact List.idxOf_lt_length_of_mem hmem
  intro a ha hcycle
  have descends : ∀ x, Relation.TransGen (fun x y => x ∈ U ∧ y ∈ next x) a x →
      (order.map key).idxOf (key x) < (order.map key).idxOf (key a) := by
    intro x h
    induction h with
    | single h => exact lower _ h.1 _ h.2
    | tail _ h ih => exact Nat.lt_trans (lower _ h.1 _ h.2) ih
  exact Nat.lt_irrefl _ (descends a (transGen_closed closed ha hcycle).2)

/-- The marked nodes are listed, in a sorted order. -/
structure Placed (key : α → κ) (next : α → List α) (g : Guarded α κ) : Prop where
  listed : ∀ k ∈ g.visited, k ∈ g.order.map key
  sorted : Sorted key next g.order

theorem search_marks {n : Nat} {a : α} {g g' : Guarded α κ} (h : search key next (n + 1) a g = .ok g') :
    key a ∈ g'.visited := by
  rcases search_cases h with ⟨hold, rfl⟩ | ⟨_, _, t, _, rfl⟩
  · exact hold
  · exact List.mem_cons_self ..

theorem foldlM_marks {n : Nat} {bs : List α} {g t : Guarded α κ}
    (h : bs.foldlM (fun s b => search key next (n + 1) b s) g = .ok t) : ∀ b ∈ bs, key b ∈ t.visited := by
  induction bs generalizing g with
  | nil => simp
  | cons c bs ih =>
    rw [List.foldlM_cons] at h
    obtain ⟨s, hs, h⟩ := Except.bind_eq_ok.mp h
    have later := Except.foldlM_induct (P := Searched s) h (.refl _) fun b _ u u' hu hb => hu.trans (search_searched hb)
    intro b hb
    rcases List.mem_cons.mp hb with rfl | hb
    · exact later.visited _ (search_marks hs)
    · exact ih h b hb

theorem search_placed (closed : Closed next U) {n : Nat} {a : α} (ha : a ∈ U) {g g' : Guarded α κ}
    (bound : unvisited key U (g.visited ++ g.visiting) < n) (placed : Placed key next g)
    (h : search key next n a g = .ok g') : Placed key next g' := by
  induction n generalizing a g g' with
  | zero => cases bound
  | succ n ih =>
    rcases search_cases h with ⟨_, rfl⟩ | ⟨hnew, houtside, t, ht, rfl⟩
    · exact placed
    · let entered : Guarded α κ := { g with visiting := key a :: g.visiting }
      have hmarked : ∀ s : Guarded α κ, Searched entered s → unvisited key U (s.visited ++ s.visiting) < n :=
        fun s hs => Nat.lt_of_lt_of_le (unvisited_entered ha hnew houtside hs) (Nat.le_of_lt_succ bound)
      have inner := Except.foldlM_induct (P := fun s => Searched entered s ∧ Placed key next s) ht
        ⟨.refl _, placed.listed, placed.sorted⟩ fun b hb s s' hs h =>
          ⟨hs.1.trans (search_searched h), ih (closed a ha b hb) (hmarked s hs.1) hs.2 h⟩
      obtain ⟨m, rfl⟩ : ∃ m, n = m + 1 := ⟨n - 1, by have := hmarked entered (.refl _); omega⟩
      have marks := foldlM_marks ht
      refine ⟨fun k hk => ?_, inner.2.sorted.concat fun b hb => inner.2.listed _ (marks b hb)⟩
      rw [List.map_append, List.mem_append, List.map_singleton, List.mem_singleton]
      exact (List.mem_cons.mp hk).symm.imp_left (inner.2.listed k)

/-- A guarded search of all nodes that succeeds lists them in a sorted order. -/
theorem searchAll_sorted (closed : Closed next U) {n : Nat} (bound : U.length < n) {g : Guarded α κ}
    (h : searchAll key next n U ⟨[], [], []⟩ = .ok g) : Sorted key next g.order := by
  refine (Except.foldlM_induct (P := Placed key next) h ⟨by simp, ?_⟩ fun a ha s s' hs hsearch =>
    search_placed closed ha (Nat.lt_of_le_of_lt (List.length_filter_le ..) bound) hs hsearch).sorted
  intro pre x post hsplit
  exact absurd hsplit.symm (by simp)

end Guards

end Dfs
