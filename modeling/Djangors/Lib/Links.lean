import Mathlib.Data.List.Infix
import Mathlib.Data.List.Nodup

/-! # Sets of pairs kept as rows

A table of pairs to which pairs are added and from which they are removed. Either side may be a key, by which a row
that is already there stands in the way of an added pair, and foreign keys may refuse one. -/

namespace Links
variable {α β : Type} [DecidableEq α] [DecidableEq β]

inductive Op (α β : Type) where
  | add (p : α × β)
  | remove (p : α × β)
deriving DecidableEq, Repr

def Op.pair : Op α β → α × β
  | add p | remove p => p

/-- The last operation on a pair added it. -/
def Linked (ops : List (Op α β)) (p : α × β) : Prop := (ops.filter (·.pair = p)).getLast? = some (.add p)

instance (ops : List (Op α β)) (p : α × β) : Decidable (Linked ops p) := inferInstanceAs (Decidable (_ = _))

/-- Whether the left and the right side of a pair is a key, and the pairs that foreign keys accept. -/
structure Table (α β : Type) where
  leftKey : Bool
  rightKey : Bool
  accepts : α × β → Bool

namespace Table
variable (T : Table α β)

/-- A row has a key of the pair. -/
def conflicts (rows : List (α × β)) (p : α × β) : Bool :=
  T.leftKey && rows.any (·.1 == p.1) || T.rightKey && rows.any (·.2 == p.2)

/-- A pair is not added when it conflicts with a row. -/
def step (rows : List (α × β)) : Op α β → Option (List (α × β))
  | .add p => if T.conflicts rows p then some rows else if T.accepts p then some (rows ++ [p]) else none
  | .remove p => some (rows.filter (· != p))

def run (ops : List (Op α β)) : Option (List (α × β)) := ops.foldlM T.step []

/-- The operations leave each linked pair once, and no other. -/
def Sound (ops : List (Op α β)) : Prop := ∃ rows, T.run ops = some rows ∧ rows.Nodup ∧ ∀ p, p ∈ rows ↔ Linked ops p

/-- A linked pair has a key of the pair. -/
def Clashes (before : List (Op α β)) (p : α × β) : Prop :=
  (T.leftKey = true ∧ ∃ q, Linked before q ∧ q.1 = p.1) ∨ (T.rightKey = true ∧ ∃ q, Linked before q ∧ q.2 = p.2)

/-- A pair can be added: a linked pair is in its way exactly when the pair is linked itself, and it is accepted when
    it is not. -/
def Addable (before : List (Op α β)) (p : α × β) : Prop :=
  (T.Clashes before p ↔ Linked before p) ∧ (¬Linked before p → T.accepts p = true)

end Table

variable {T : Table α β} {ops : List (Op α β)} {op : Op α β} {p q : α × β}

@[simp] theorem not_linked_nil : ¬Linked [] p := nofun

theorem linked_concat : Linked (ops ++ [op]) p ↔ if op.pair = p then op = .add p else Linked ops p := by
  rw [Linked, List.filter_append]
  by_cases h : op.pair = p
  · simp [h]
  · simp [h, Linked]

theorem linked_concat_add : Linked (ops ++ [.add p]) q ↔ p = q ∨ Linked ops q := by
  rw [linked_concat]
  by_cases h : p = q
  · simp [Op.pair, h]
  · simp [Op.pair, h]

theorem linked_concat_remove : Linked (ops ++ [.remove p]) q ↔ p ≠ q ∧ Linked ops q := by
  rw [linked_concat]
  by_cases h : p = q
  · simp [Op.pair, h]
  · simp [Op.pair, h]

namespace Table

theorem run_concat : T.run (ops ++ [op]) = (T.run ops).bind (T.step · op) := by
  rw [run, List.foldlM_append]
  cases h : T.run ops with
  | none =>
    rw [run] at h
    simp [h]
  | some rows =>
    rw [run] at h
    simp [h]

/-- The rows are pairs of operations. -/
theorem mem_of_run {rows : List (α × β)} (h : T.run ops = some rows) (hp : p ∈ rows) : ∃ op ∈ ops, op.pair = p := by
  induction ops using List.reverseRecOn generalizing rows with
  | nil =>
    cases h
    cases hp
  | append_singleton ops op ih =>
    rw [run_concat] at h
    obtain ⟨before, hbefore, hstep⟩ := Option.bind_eq_some_iff.mp h
    have kept (hp : p ∈ before) : ∃ op' ∈ ops ++ [op], op'.pair = p := by
      obtain ⟨op', hop', heq⟩ := ih hbefore hp
      exact ⟨op', List.mem_append_left _ hop', heq⟩
    cases op with
    | add q =>
      rw [step] at hstep
      split at hstep
      · cases hstep
        exact kept hp
      · obtain ⟨_, ⟨⟩⟩ := Option.ite_none_right_eq_some.mp hstep
        rcases List.mem_append.mp hp with hp | hp
        · exact kept hp
        · exact ⟨.add q, by simp, (List.mem_singleton.mp hp).symm⟩
    | remove q =>
      cases hstep
      exact kept (List.mem_of_mem_filter hp)

theorem sound_nil : T.Sound [] := ⟨[], rfl, .nil, fun p => by simp⟩

/-- The rows that conflict with a pair are links that clash with it. -/
theorem conflicts_iff {rows : List (α × β)} (h : ∀ p, p ∈ rows ↔ Linked ops p) :
    T.conflicts rows p = true ↔ T.Clashes ops p := by
  simp only [conflicts, Bool.or_eq_true, Bool.and_eq_true, List.any_eq_true, beq_iff_eq, h, Clashes]

theorem sound_remove (h : T.Sound ops) : T.Sound (ops ++ [.remove p]) := by
  obtain ⟨rows, hrun, hnodup, hmem⟩ := h
  refine ⟨rows.filter (· != p), by rw [run_concat, hrun]; rfl, hnodup.filter _, fun q => ?_⟩
  rw [List.mem_filter, hmem, linked_concat_remove, bne_iff_ne, and_comm, ne_comm]

/-- An addition is sound exactly when the pair can be added. -/
theorem sound_add_iff (h : T.Sound ops) : T.Sound (ops ++ [.add p]) ↔ T.Addable ops p := by
  obtain ⟨rows, hrun, hnodup, hmem⟩ := h
  have hconflicts : T.conflicts rows p = true ↔ T.Clashes ops p := conflicts_iff hmem
  have hnext : T.run (ops ++ [.add p]) = T.step rows (.add p) := by rw [run_concat, hrun]; rfl
  simp only [Sound, Addable, hnext, linked_concat_add, step]
  by_cases hclash : T.Clashes ops p
  · -- The rows stay as they are.
    rw [if_pos (hconflicts.mpr hclash)]
    constructor
    · rintro ⟨rows', ⟨⟩, -, hmem'⟩
      have hlinked : Linked ops p := (hmem p).mp ((hmem' p).mpr (.inl rfl))
      exact ⟨⟨fun _ => hlinked, fun _ => hclash⟩, fun hnot => absurd hlinked hnot⟩
    · rintro ⟨hiff, -⟩
      refine ⟨rows, rfl, hnodup, fun q => ⟨fun hq => .inr ((hmem q).mp hq), ?_⟩⟩
      rintro (rfl | hq)
      · exact (hmem _).mpr (hiff.mp hclash)
      · exact (hmem q).mpr hq
  · rw [if_neg (mt hconflicts.mp hclash)]
    constructor
    · rintro ⟨rows', hstep, hnodup', -⟩
      obtain ⟨haccepts, ⟨⟩⟩ := Option.ite_none_right_eq_some.mp hstep
      have hlinked : ¬Linked ops p := fun hl =>
        List.disjoint_of_nodup_append hnodup' ((hmem p).mpr hl) (List.mem_singleton_self p)
      exact ⟨⟨fun hc => absurd hc hclash, fun hl => absurd hl hlinked⟩, fun _ => haccepts⟩
    · rintro ⟨hiff, haccepts⟩
      have hlinked : ¬Linked ops p := fun hl => hclash (hiff.mpr hl)
      rw [if_pos (haccepts hlinked)]
      refine ⟨rows ++ [p], rfl, ?_, fun q => ?_⟩
      · refine List.nodup_append'.mpr ⟨hnodup, List.nodup_singleton p, ?_⟩
        rw [List.disjoint_singleton]
        exact mt (hmem p).mp hlinked
      · rw [List.mem_append, List.mem_singleton, hmem, or_comm, eq_comm]

/-- Every sequence of operations up to some point leaves the linked pairs exactly when every pair that is added can be
    added there. -/
theorem sound_prefixes_iff : (∀ before, before <+: ops → T.Sound before) ↔
    ∀ before p after, ops = before ++ .add p :: after → T.Addable before p := by
  constructor
  · rintro h before p after rfl
    have hbefore : T.Sound before := h _ (List.prefix_append ..)
    refine (sound_add_iff hbefore).mp (h _ ?_)
    exact ⟨after, by simp⟩
  · intro h before
    induction before using List.reverseRecOn with
    | nil => exact fun _ => sound_nil
    | append_singleton before op ih =>
      rintro ⟨after, heq⟩
      have hbefore : T.Sound before := ih ⟨op :: after, by rw [← heq, List.append_assoc]; rfl⟩
      cases op with
      | remove p => exact sound_remove hbefore
      | add p => exact (sound_add_iff hbefore).mpr (h before p after (by rw [← heq, List.append_assoc]; rfl))

end Table
end Links
