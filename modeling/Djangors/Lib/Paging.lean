import Mathlib.Data.List.Nodup

/-! # Reading a list page by page

Each page ends with an item whose cursor says which items are left. The pages are the list exactly when every
cursor at the end of a page leaves the items behind it. -/

namespace Paging

section Pages
variable {α γ : Type} (items : List α) (size : Nat) (cursorOf : α → Option γ) (left : γ → α → Bool)

/-- The items from a cursor on. -/
def remaining : Option γ → List α
  | none => items
  | some c => items.filter (left c)

/-- What is read from a cursor on. A page that is not the last one ends with an item that has a cursor. -/
inductive Visits : Option γ → List α → Prop
  | last {c : Option γ} : (remaining items left c).length ≤ size → Visits c (remaining items left c)
  | more {c : Option γ} {a : α} {next : γ} {rest : List α} : size < (remaining items left c).length →
      ((remaining items left c).take size).getLast? = some a → cursorOf a = some next → Visits (some next) rest →
      Visits c ((remaining items left c).take size ++ rest)

/-- The item before position `k` has a cursor, and it leaves the items from there on. -/
def CutsAt (k : Nat) : Prop :=
  ∃ a c, items[k - 1]? = some a ∧ cursorOf a = some c ∧ items.filter (left c) = items.drop k

/-- The items that one cursor leaves are among those that another leaves, or the other way around. -/
def Nested : Prop := ∀ c c', (∀ a ∈ items, left c a = true → left c' a = true) ∨
  ∀ a ∈ items, left c' a = true → left c a = true

end Pages

section Facts
variable {α γ : Type} {items : List α} {size : Nat} {cursorOf : α → Option γ} {left : γ → α → Bool}

/-- The last item of a full page. -/
theorem getLast?_page {k : Nat} (hsize : 0 < size) (h : k + size ≤ items.length) :
    ((items.drop k).take size).getLast? = items[k + size - 1]? := by
  rw [List.getLast?_eq_getElem?, List.length_take, List.length_drop, List.getElem?_take_of_lt (by omega),
    List.getElem?_drop]
  congr 1
  omega

/-! ### From cuts to pages -/

/-- From a cut on, the pages are the items behind it. -/
theorem visits_of_cuts (hsize : 0 < size)
    (cuts : ∀ k, 0 < k → k * size < items.length → CutsAt items cursorOf left (k * size)) {c : Option γ} {k : Nat}
    (hc : remaining items left c = items.drop (k * size)) :
    Visits items size cursorOf left c (items.drop (k * size)) := by
  induction hn : items.length - k * size using Nat.strongRecOn generalizing c k with
  | ind n ih =>
    by_cases hlast : (remaining items left c).length ≤ size
    · rw [← hc]
      exact .last hlast
    · have hlen : size < items.length - k * size := by
        rw [← List.length_drop, ← hc]
        omega
      have hk : (k + 1) * size = k * size + size := Nat.succ_mul k size
      rcases cuts (k + 1) (Nat.succ_pos k) (by omega) with ⟨a, next, ha, hnext, hcut⟩
      have hremaining : remaining items left (some next) = items.drop ((k + 1) * size) := hcut
      have rest := ih (items.length - (k + 1) * size) (by omega) hremaining rfl
      have page : ((remaining items left c).take size).getLast? = some a := by
        rw [hc, getLast?_page hsize (by omega), ← hk, ha]
      have all := Visits.more (by omega) page hnext rest
      rwa [hc, hk, ← List.drop_drop, List.take_append_drop] at all

/-! ### From pages to cuts -/

/-- A cursor leaves nothing before the items that are read from it on. -/
theorem left_behind (nodup : items.Nodup) (hsize : 0 < size) {c : γ} {k : Nat}
    (h : Visits items size cursorOf left (some c) (items.drop k)) {a : α} (ha : a ∈ items) (hleft : left c a = true) :
    a ∈ items.drop k := by
  generalize hrest : items.drop k = behind at h
  cases h with
  | last _ => exact List.mem_filter.mpr ⟨ha, hleft⟩
  | @more _ b _ rest hlen _ _ _ =>
    by_contra hbefore
    -- The first item that is left stands before the cut, and it is the first one that is read.
    have htake : a ∈ items.take k := by
      rw [← List.take_append_drop k items, List.mem_append, hrest] at ha
      exact ha.resolve_right hbefore
    have hfront := List.ne_nil_of_mem (List.mem_filter.mpr ⟨htake, hleft⟩)
    rcases List.exists_cons_of_ne_nil hfront with ⟨first, others, hfirst⟩
    have hread : first ∈ items.drop k := by
      rw [hrest, remaining, ← List.take_append_drop k items, List.filter_append, hfirst, List.cons_append,
        List.take_cons hsize]
      exact List.mem_cons_self ..
    have hbefore : first ∈ items.take k := (List.mem_filter.mp (hfirst ▸ List.mem_cons_self ..)).1
    exact List.disjoint_take_drop nodup (Nat.le_refl k) hbefore hread

/-- The rest of a list that is read in pages. -/
theorem drop_more {l page rest : List α} {k : Nat} (hpage : page.length = size) (h : l.drop k = page ++ rest) :
    rest = l.drop (k + size) := by
  rw [← List.drop_drop, h, ← hpage, List.drop_left]

/-- The items that are read from a cursor on are left by it. -/
theorem left_of_visits (nodup : items.Nodup) (hsize : 0 < size) (nested : Nested items left) {c : γ} {k : Nat}
    (h : Visits items size cursorOf left (some c) (items.drop k)) : ∀ a ∈ items.drop k, left c a = true := by
  generalize hcursor : some c = cursor at h
  generalize hrest : items.drop k = behind at h
  induction h generalizing c k with
  | last _ =>
    subst hcursor
    exact fun a ha => (List.mem_filter.mp ha).2
  | @more _ b next rest hlen hpage hnext hvisits ih =>
    subst hcursor
    have hrest' := drop_more (List.length_take_of_le (Nat.le_of_lt hlen)) hrest
    have mine : ∀ a ∈ (remaining items left (some c)).take size, left c a = true := fun a ha =>
      (List.mem_filter.mp (List.mem_of_mem_take ha)).2
    -- The next cursor does not leave the end of this page, so it leaves fewer items.
    have hb := List.mem_of_getLast? hpage
    have hb' : b ∉ items.drop (k + size) := by
      rw [← hrest']
      intro hmem
      have hnodup := nodup.sublist (List.drop_sublist k items)
      rw [hrest, List.nodup_append] at hnodup
      exact hnodup.2.2 b hb b hmem rfl
    have hitem : b ∈ items := (List.mem_filter.mp (List.mem_of_mem_take hb)).1
    have fewer : ∀ a ∈ items, left next a = true → left c a = true := by
      refine (nested c next).resolve_left fun h => hb' ?_
      rw [hrest'] at hvisits
      exact left_behind nodup hsize hvisits hitem (h b hitem (mine b hb))
    intro a ha
    rcases List.mem_append.mp ha with ha | ha
    · exact mine a ha
    · exact fewer a ((List.drop_sublist _ _).mem (hrest' ▸ ha)) (ih rfl hrest'.symm a ha)

theorem filter_eq_drop {c : γ} {k : Nat} (behind : ∀ a ∈ items, left c a = true → a ∈ items.drop k)
    (all : ∀ a ∈ items.drop k, left c a = true) (nodup : items.Nodup) : items.filter (left c) = items.drop k := by
  have hfront : (items.take k).filter (left c) = [] := by
    refine List.filter_eq_nil_iff.mpr fun a ha hleft => ?_
    exact List.disjoint_take_drop nodup (Nat.le_refl k) ha (behind a ((List.take_sublist _ _).mem ha) hleft)
  conv_lhs => rw [← List.take_append_drop k items]
  rw [List.filter_append, hfront, List.nil_append, List.filter_eq_self]
  exact all

theorem cuts_of_visits (nodup : items.Nodup) (hsize : 0 < size) (nested : Nested items left) {c : Option γ} {k : Nat}
    (hk : k * size ≤ items.length) (h : Visits items size cursorOf left c (items.drop (k * size))) :
    ∀ j, k < j → j * size < items.length → CutsAt items cursorOf left (j * size) := by
  generalize hrest : items.drop (k * size) = behind at h
  induction h generalizing k with
  | @last c hlast =>
    intro j hj hlen
    have hj' := Nat.mul_le_mul_right size (Nat.succ_le_of_lt hj)
    rw [← hrest, List.length_drop] at hlast
    rw [Nat.succ_mul] at hj'
    omega
  | @more c b next rest hlen hpage hnext hvisits ih =>
    have hfull : ((remaining items left c).take size).length = size := List.length_take_of_le (Nat.le_of_lt hlen)
    have hrest' := drop_more hfull hrest
    have hk' : (k + 1) * size = k * size + size := Nat.succ_mul k size
    have hbound : (k + 1) * size ≤ items.length := by
      have htotal := congrArg List.length hrest
      rw [List.length_append, hfull, List.length_drop] at htotal
      omega
    rw [← hk'] at hrest'
    have hcut : CutsAt items cursorOf left ((k + 1) * size) := by
      rw [hrest'] at hvisits
      refine ⟨b, next, ?_, hnext, filter_eq_drop (fun a => left_behind nodup hsize hvisits)
        (left_of_visits nodup hsize nested hvisits) nodup⟩
      rw [hk', ← getLast?_page hsize (hk' ▸ hbound), hrest, List.take_left' hfull, hpage]
    intro j hj hlen
    rcases Nat.eq_or_lt_of_le (Nat.succ_le_of_lt hj) with rfl | hlater
    · exact hcut
    · exact ih hbound hrest'.symm j hlater hlen

/-- The pages are the items, each once and in order, exactly when every page but the last one ends with a cut. -/
theorem visits_iff (nodup : items.Nodup) (hsize : 0 < size) (nested : Nested items left) :
    Visits items size cursorOf left none items ↔
      ∀ k, 0 < k → k * size < items.length → CutsAt items cursorOf left (k * size) := by
  have hstart : items.drop (0 * size) = items := by rw [Nat.zero_mul, List.drop_zero]
  constructor
  · intro h
    have h' : Visits items size cursorOf left none (items.drop (0 * size)) := by rwa [hstart]
    exact cuts_of_visits nodup hsize nested (by omega) h'
  · intro cuts
    have h := visits_of_cuts hsize cuts (c := none) hstart.symm
    rwa [hstart] at h

end Facts
end Paging
