import Mathlib.Data.List.Sort

/-! # Reading rows window by window

Rows are arranged by their ranks, and rows of one rank in any order. Each window is cut out of an arrangement of its
own. The windows are the rows, each once, exactly when no two rows of one rank stand on both sides of a cut. -/

namespace Windows
variable {α κ : Type} [LinearOrder κ] (rank : α → κ)

/-- The rows in the order of their ranks. -/
structure Arranged (rows l : List α) : Prop where
  perm : l.Perm rows
  sorted : l.Pairwise (rank · ≤ rank ·)

/-- Window `k` of a list. -/
def window (size k : Nat) (l : List α) : List α := (l.drop (k * size)).take size

/-- The rows on both sides of each cut differ in their ranks. -/
def Apart (rows : List α) (size : Nat) : Prop :=
  ∀ l, Arranged rank rows l → ∀ k a b, l[k * size + size - 1]? = some a → l[k * size + size]? = some b → rank a ≠ rank b

variable {rank} {rows l l' : List α} {size : Nat}

theorem length_window_le (size k : Nat) (l : List α) : (window size k l).length ≤ size := List.length_take_le ..

theorem arranged_mergeSort (rank : α → κ) (rows : List α) : Arranged rank rows (rows.mergeSort (rank · ≤ rank ·)) := by
  refine ⟨List.mergeSort_perm rows _, ?_⟩
  have hsorted : (rows.mergeSort (rank · ≤ rank ·)).Pairwise fun a b => decide (rank a ≤ rank b) = true :=
    List.pairwise_mergeSort (fun a b c hab hbc => by simp only [decide_eq_true_eq] at *; exact hab.trans hbc)
      (fun a b => by simpa using le_total (rank a) (rank b)) rows
  simpa using hsorted

/-! ### Cuts between ranks -/

/-- Up to a cut between two ranks, the rows are those of the smaller ranks. -/
theorem take_eq_filter {c : Nat} {a b : α} (sorted : l.Pairwise (rank · ≤ rank ·)) (ha : l[c]? = some a)
    (hb : l[c + 1]? = some b) (cut : rank a ≠ rank b) : l.take (c + 1) = l.filter (rank · < rank b) := by
  obtain ⟨hc, rfl⟩ := List.getElem?_eq_some_iff.mp ha
  obtain ⟨hc', rfl⟩ := List.getElem?_eq_some_iff.mp hb
  have hle := List.pairwise_iff_getElem.mp sorted
  have hfront : (l.take (c + 1)).filter (rank · < rank l[c + 1]) = l.take (c + 1) := by
    refine List.filter_eq_self.mpr fun x hx => ?_
    obtain ⟨i, hi, rfl⟩ := List.mem_take_iff_getElem.mp hx
    have hlast : rank l[i] ≤ rank l[c] := by
      rcases Nat.lt_or_eq_of_le (show i ≤ c by omega) with h | h
      · exact hle i c (by omega) hc h
      · exact le_of_eq (by simp only [h])
    exact decide_eq_true (lt_of_le_of_lt hlast (lt_of_le_of_ne (hle c (c + 1) hc hc' (by omega)) cut))
  have hback : (l.drop (c + 1)).filter (rank · < rank l[c + 1]) = [] := by
    refine List.filter_eq_nil_iff.mpr fun x hx => ?_
    obtain ⟨i, hi, rfl⟩ := List.mem_drop_iff_getElem.mp hx
    have hfirst : rank l[c + 1] ≤ rank l[c + 1 + i] := by
      rcases Nat.eq_zero_or_pos i with h | h
      · exact le_of_eq (by simp only [h, Nat.add_zero])
      · exact hle (c + 1) (c + 1 + i) hc' (by omega) (by omega)
    simpa using hfirst
  have hsplit := congrArg (List.filter (rank · < rank l[c + 1])) (List.take_append_drop (c + 1) l)
  rw [List.filter_append, hfront, hback, List.append_nil] at hsplit
  exact hsplit

/-- Two arrangements have the same ranks. -/
theorem map_rank_eq (h : Arranged rank rows l) (h' : Arranged rank rows l') : l.map rank = l'.map rank := by
  refine List.Perm.eq_of_pairwise' (r := (· ≤ ·)) ?_ ?_ ((h.perm.trans h'.perm.symm).map rank)
  · exact List.pairwise_map.mpr h.sorted
  · exact List.pairwise_map.mpr h'.sorted

/-- Up to a cut between two ranks, arrangements hold the same rows. -/
theorem take_perm_take (apart : Apart rank rows size) (hsize : 0 < size) (h : Arranged rank rows l)
    (h' : Arranged rank rows l') (k : Nat) : (l.take (k * size)).Perm (l'.take (k * size)) := by
  have hlength : l.length = l'.length := (h.perm.trans h'.perm.symm).length_eq
  cases k with
  | zero => simp
  | succ k =>
    rw [Nat.succ_mul]
    obtain ⟨c, hc⟩ : ∃ c, k * size + size = c + 1 := ⟨k * size + size - 1, by omega⟩
    by_cases hlast : l.length ≤ c + 1
    · rw [hc, List.take_of_length_le hlast, List.take_of_length_le (hlength ▸ hlast)]
      exact h.perm.trans h'.perm.symm
    · obtain ⟨a, ha⟩ : ∃ a, l[c]? = some a := ⟨_, List.getElem?_eq_getElem (by omega)⟩
      obtain ⟨b, hb⟩ : ∃ b, l[c + 1]? = some b := ⟨_, List.getElem?_eq_getElem (by omega)⟩
      obtain ⟨a', ha'⟩ : ∃ a, l'[c]? = some a := ⟨_, List.getElem?_eq_getElem (by omega)⟩
      obtain ⟨b', hb'⟩ : ∃ b, l'[c + 1]? = some b := ⟨_, List.getElem?_eq_getElem (by omega)⟩
      have hcut := apart l h k a b (by rw [hc]; exact ha) (by rw [hc]; exact hb)
      have hcut' := apart l' h' k a' b' (by rw [hc]; exact ha') (by rw [hc]; exact hb')
      have hranks : rank b = rank b' := by
        have hmap := congrArg (·[c + 1]?) (map_rank_eq h h')
        simpa only [List.getElem?_map, hb, hb', Option.map_some, Option.some.injEq] using hmap
      rw [hc, take_eq_filter h.sorted ha hb hcut, take_eq_filter h'.sorted ha' hb' hcut', hranks]
      exact (h.perm.trans h'.perm.symm).filter _

/-! ### The windows together -/

theorem take_succ_window (size k : Nat) (l : List α) : l.take ((k + 1) * size) = l.take (k * size) ++ window size k l := by
  rw [Nat.succ_mul, window, List.take_add]

/-- The windows of one arrangement, up to its end. -/
theorem flatMap_window {n : Nat} (hn : l.length ≤ n * size) : ((List.range n).flatMap fun k => window size k l) = l := by
  have htake : ∀ n, ((List.range n).flatMap fun k => window size k l) = l.take (n * size) := by
    intro n
    induction n with
    | zero => simp
    | succ n ih => rw [List.range_succ, List.flatMap_append, List.flatMap_singleton, ih, take_succ_window]
  rw [htake, List.take_of_length_le hn]

/-- If no cut parts rows of one rank, the windows of any arrangements hold each row once. -/
theorem windows_perm (apart : Apart rank rows size) (hsize : 0 < size) {arrangement : Nat → List α}
    (h : ∀ k, Arranged rank rows (arrangement k)) {n : Nat} (hn : rows.length ≤ n * size) :
    ((List.range n).flatMap fun k => window size k (arrangement k)).Perm rows := by
  have hupto : ∀ n, ((List.range n).flatMap fun k => window size k (arrangement k)).Perm
      ((arrangement 0).take (n * size)) := by
    intro n
    induction n with
    | zero => simp
    | succ n ih =>
      rw [List.range_succ, List.flatMap_append, List.flatMap_singleton]
      have hmine := (ih.trans (take_perm_take apart hsize (h 0) (h n) n)).append_right (window size n (arrangement n))
      rw [← take_succ_window] at hmine
      exact hmine.trans (take_perm_take apart hsize (h n) (h 0) (n + 1))
  refine (hupto n).trans ?_
  rw [List.take_of_length_le ((h 0).perm.length_eq ▸ hn)]
  exact (h 0).perm

/-- Two neighbours of one rank can change places. -/
theorem Arranged.swap {c : Nat} {a b : α} (h : Arranged rank rows l) (ha : l[c]? = some a) (hb : l[c + 1]? = some b)
    (tie : rank a = rank b) : Arranged rank rows (l.take c ++ b :: a :: l.drop (c + 2)) := by
  have hsplit : l = l.take c ++ a :: b :: l.drop (c + 2) := by
    obtain ⟨hc, rfl⟩ := List.getElem?_eq_some_iff.mp ha
    obtain ⟨hc', rfl⟩ := List.getElem?_eq_some_iff.mp hb
    rw [List.getElem_cons_drop (i := c + 1), List.getElem_cons_drop, List.take_append_drop]
  constructor
  · refine List.Perm.trans ?_ h.perm
    conv_rhs => rw [hsplit]
    exact (List.Perm.swap _ _ _).append_left _
  · have hsorted := h.sorted
    rw [hsplit] at hsorted
    simp only [List.pairwise_append, List.pairwise_cons, List.mem_cons, forall_eq_or_imp] at hsorted ⊢
    obtain ⟨hfront, ⟨⟨-, ha⟩, hb, hback⟩, hcross⟩ := hsorted
    exact ⟨hfront, ⟨⟨tie.ge, hb⟩, ha, hback⟩, fun x hx => ⟨(hcross x hx).2.1, (hcross x hx).1, (hcross x hx).2.2⟩⟩

/-- If a cut parts rows of one rank, some arrangements show a row twice. -/
theorem apart_of_windows (nodup : rows.Nodup) (hsize : 0 < size) {n : Nat} (hn : rows.length ≤ n * size)
    (all : ∀ arrangement : Nat → List α, (∀ k, Arranged rank rows (arrangement k)) →
      ((List.range n).flatMap fun k => window size k (arrangement k)).Perm rows) : Apart rank rows size := by
  intro l h k a b ha hb tie
  obtain ⟨c, hc⟩ : ∃ c, k * size + size = c + 1 := ⟨k * size + size - 1, by omega⟩
  rw [hc, Nat.add_sub_cancel] at ha
  rw [hc] at hb
  -- Window `k` is cut out of `l` and ends with `a`; the next one begins with it after the change of places.
  let arrangement (j : Nat) := if j = k then l else l.take c ++ b :: a :: l.drop (c + 2)
  have harranged : ∀ j, Arranged rank rows (arrangement j) := by
    intro j
    simp only [arrangement]
    split
    · exact h
    · exact h.swap ha hb tie
  have hread := (all arrangement harranged).nodup_iff.mpr nodup
  have hlater : k + 1 < n := by
    have hlen := h.perm.length_eq
    have hb := (List.getElem?_eq_some_iff.mp hb).1
    by_contra hle
    have := Nat.mul_le_mul_right size (Nat.le_of_not_lt hle)
    rw [Nat.succ_mul] at this
    omega
  have hdisjoint := List.pairwise_iff_getElem.mp (List.nodup_flatMap.mp hread).2 k (k + 1) (by simp; omega)
    (by simp; omega) (Nat.lt_succ_self k)
  simp only [List.getElem_range] at hdisjoint
  have hfirst : a ∈ window size k (arrangement k) := by
    have hlast : (window size k (arrangement k))[size - 1]? = some a := by
      have hindex : k * size + (size - 1) = c := by omega
      simp only [window, arrangement, if_pos, List.getElem?_take_of_lt (Nat.sub_one_lt_of_lt hsize), List.getElem?_drop,
        hindex, ha]
    exact List.mem_of_getElem? hlast
  have hsecond : a ∈ window size (k + 1) (arrangement (k + 1)) := by
    have hlength : (l.take c).length = c := List.length_take_of_le (Nat.le_of_lt (List.getElem?_eq_some_iff.mp ha).1)
    have hfront : (window size (k + 1) (arrangement (k + 1)))[0]? = some a := by
      simp only [window, arrangement, if_neg (Nat.succ_ne_self k), List.getElem?_take_of_lt hsize, List.getElem?_drop,
        Nat.succ_mul, hc, Nat.add_zero]
      rw [List.getElem?_append_right (by omega), hlength, Nat.add_sub_cancel_left]
      rfl
    exact List.mem_of_getElem? hfront
  exact hdisjoint hfirst hsecond

/-- The windows of any arrangements hold each row once exactly when no cut parts rows of one rank. -/
theorem windows_perm_iff (nodup : rows.Nodup) (hsize : 0 < size) {n : Nat} (hn : rows.length ≤ n * size) :
    (∀ arrangement : Nat → List α, (∀ k, Arranged rank rows (arrangement k)) →
      ((List.range n).flatMap fun k => window size k (arrangement k)).Perm rows) ↔ Apart rank rows size :=
  ⟨apart_of_windows nodup hsize hn, fun apart _ h => windows_perm apart hsize h hn⟩

end Windows
