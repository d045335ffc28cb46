import Djangors.Cache.DatabaseCache

/-! # Reads and live entries

A `get` that has found an expired entry deletes what stands in its place when its `DELETE` runs. Apart from that, the
entry of the last set of a key stays as long as it lives. -/

namespace Djangors.Cache

theorem Entry.isLive_mono {entry : Entry} {now now' : DateTime} (h : entry.isLive now' = true)
    (hle : now.nanos ≤ now'.nanos) : entry.isLive now = true := by
  rw [Entry.isLive, Option.all_eq_true] at h ⊢
  exact fun t ht => decide_eq_true (Int.lt_of_le_of_lt hle (of_decide_eq_true (h t ht)))

/-- A `get` that runs alone. -/
theorem run_get (precision : DateTime → DateTime) (key : String) (s : Store) :
    (DatabaseCache.get key).run (CacheCall.step precision) [] s =
      (s.entries key).elim (s, .ok none) fun entry =>
        if entry.isLive s.clock then (s, .ok (some entry.value))
        else ({ s with entries := Function.update s.entries key none }, .ok none) := by
  have hstart : (DatabaseCache.get key).run (CacheCall.step precision) [] s =
      (Fallible.onward _ (.ok (s.entries key))).run (CacheCall.step precision) [] s := rfl
  rw [hstart]
  rcases s.entries key with _ | ⟨value, _ | expiresAt⟩
  · rfl
  · rfl
  · have hnow : _ = Program.run (CacheCall.step precision) (if s.clock.nanos < expiresAt.nanos then pure (some value) else do
        DatabaseCache.delete key
        return none : CacheAction (Option (List UInt8))) [] s := rfl
    refine hnow.trans ?_
    by_cases hlive : s.clock.nanos < expiresAt.nanos
    · simp only [Option.elim_some, hlive, if_true, Entry.isLive, Option.all_some, decide_true]
      rfl
    · simp only [Option.elim_some, hlive, if_false, Entry.isLive, Option.all_some, decide_false, Bool.false_eq_true]
      rfl

namespace Calls

variable {ι : Type} {precision : DateTime → DateTime} {request : ι → Request} {s s' : Calls ι} {e : Event ι} {key : String}
  {entry : Entry} {now : DateTime}

/-- Until it expires, a `get` returns the value that the last set of its key has stored. -/
def Faithful (precision : DateTime → DateTime) (s : Calls ι) : Prop :=
  ∀ key entry, s.latest key = some (some entry) → ∀ now : DateTime, s.store.clock.nanos ≤ now.nanos →
    entry.isLive now = true →
    ((DatabaseCache.get key).run (CacheCall.step precision) [] { s.store with clock := now }).2 = .ok (some entry.value)

/-- No `DELETE` of a `get` runs while the last set of the key lives. -/
def Undisturbed (request : ι → Request) (s : Calls ι) : Event ι → Prop
  | .step i none => ∀ key rest, s.threads i = some (.call (.delete key) rest) → (request i).isDelete = false →
    ∀ entry, s.latest key = some (some entry) → entry.isLive s.store.clock = false
  | _ => True

/-- The entry of the last set stands, unless it has expired. -/
def Sound (s : Calls ι) : Prop :=
  ∀ key entry, s.latest key = some (some entry) →
    s.store.entries key = some entry ∨ s.store.entries key = none ∧ entry.isLive s.store.clock = false

theorem latest_append (effects : List (String × Option Entry)) (h : s'.effects = s.effects ++ effects) :
    s'.latest key = (effects.reverse.lookup key).or (s.latest key) := by
  rw [latest, h, List.reverse_append, List.lookup_append]
  rfl

theorem faithful_of_sound (h : Sound s) : Faithful precision s := by
  intro key entry hlatest now hnow hlive
  rw [run_get]
  rcases h key entry hlatest with hentry | ⟨-, hdead⟩
  · simp only [hentry, Option.elim_some, hlive, if_true]
  · rw [Entry.isLive_mono hlive hnow] at hdead
    cases hdead

section Statements
variable {threads : ι → Option (CacheAction (Option (List UInt8)))}

theorem sound_upsert {k : String} {stored : Entry} (h : Sound s) :
    Sound (⟨⟨Function.update s.store.entries k (some stored), s.store.clock⟩, threads, s.effects ++ [(k, some stored)]⟩ :
      Calls ι) := by
  intro key entry hlatest
  rw [latest_append [(k, some stored)] rfl] at hlatest
  by_cases hkey : key = k
  · subst hkey
    simp only [List.reverse_singleton, List.lookup_cons_self, Option.some_or, Option.some.injEq] at hlatest
    exact .inl (by simp only [Function.update_self, hlatest])
  · simp only [List.reverse_singleton, List.lookup_cons, beq_eq_false_iff_ne.mpr hkey, List.lookup_nil,
      Option.none_or] at hlatest
    simpa only [Function.update_of_ne hkey] using h key entry hlatest

theorem sound_delete {k : String} (h : Sound s) :
    Sound (⟨⟨Function.update s.store.entries k none, s.store.clock⟩, threads, s.effects ++ [(k, none)]⟩ : Calls ι) := by
  intro key entry hlatest
  rw [latest_append [(k, none)] rfl] at hlatest
  by_cases hkey : key = k
  · subst hkey
    simp at hlatest
  · simp only [List.reverse_singleton, List.lookup_cons, beq_eq_false_iff_ne.mpr hkey, List.lookup_nil,
      Option.none_or] at hlatest
    simpa only [Function.update_of_ne hkey] using h key entry hlatest

/-- The `DELETE` of a `get` meets no entry that lives. -/
theorem sound_lazyDelete {k : String} (h : Sound s)
    (hdead : ∀ entry, s.latest k = some (some entry) → entry.isLive s.store.clock = false) :
    Sound (⟨⟨Function.update s.store.entries k none, s.store.clock⟩, threads, s.effects⟩ : Calls ι) := by
  intro key entry hlatest
  by_cases hkey : key = k
  · subst hkey
    exact .inr ⟨Function.update_self .., hdead entry hlatest⟩
  · simpa only [Function.update_of_ne hkey] using h key entry hlatest

end Statements

variable [DecidableEq ι]

/-- By the statement of the step. -/
theorem sound_advance (h : Sound s) (hok : Undisturbed request s e) (moved : s.advance precision request e = some s') :
    Sound s' := by
  cases e with
  | start i =>
    rw [advance] at moved
    split at moved
    · cases moved
      exact h
    · cases moved
  | tick clock =>
    rw [advance] at moved
    split at moved
    · rename_i hclock
      cases moved
      intro key entry hlatest
      refine (h key entry hlatest).imp_right fun ⟨hnone, hdead⟩ => ⟨hnone, ?_⟩
      exact Bool.eq_false_iff.mpr fun hlive => by rw [Entry.isLive_mono hlive hclock] at hdead; cases hdead
    · cases moved
  | step i failure =>
    rw [advance] at moved
    split at moved
    · rename_i call rest hthread
      cases moved
      cases failure with
      | some message => cases call <;> simpa [Sound, latest, CacheCall.step] using h
      | none =>
        cases call with
        | ensureTable | select | now => simpa [Sound, latest, CacheCall.step, effect] using h
        | upsert k stored => exact sound_upsert h
        | delete k =>
          by_cases hdelete : (request i).isDelete = true
          · rw [if_pos rfl, effect, if_pos hdelete]
            exact sound_delete h
          · rw [if_pos rfl, effect, if_neg hdelete, List.append_nil]
            exact sound_lazyDelete h (hok k rest hthread (Bool.not_eq_true _ ▸ hdelete))
    · cases moved

theorem reaches_sound {store : Store} (run : Reaches precision request (Undisturbed request) (start store) s) : Sound s := by
  induction run with
  | refl =>
    intro key entry hlatest
    cases hlatest
  | event _ ok moved ih => exact sound_advance ih ok moved

/-- The `DELETE` of a `get` that meets a living entry loses it. -/
theorem undisturbed_of_faithful (moved : s.advance precision request e = some s') (h : Faithful precision s') :
    Undisturbed request s e := by
  cases e with
  | start | tick => trivial
  | step i failure =>
    cases failure with
    | some message => trivial
    | none =>
      intro key rest hthread hget entry hlatest
      rw [advance, hthread] at moved
      cases moved
      rw [if_pos rfl, effect, hget, if_neg Bool.false_ne_true, List.append_nil] at h
      refine Bool.eq_false_iff.mpr fun hlive => ?_
      have hread := h key entry hlatest s.store.clock (Int.le_refl _) hlive
      rw [run_get] at hread
      simp at hread

/-- As long as no `get` deletes what a living set has stored, every `get` returns what the last set of its key has
    stored; and with the first that does so, one no longer does. -/
theorem reads_spare_live_entries (precision : DateTime → DateTime) (request : ι → Request) (store : Store) (s : Calls ι)
    (run : Reaches precision request (Undisturbed request) (start store) s) :
    Faithful precision s ∧
      ∀ e s', s.advance precision request e = some s' → (Faithful precision s' ↔ Undisturbed request s e) :=
  ⟨faithful_of_sound (reaches_sound run), fun _ _ moved => ⟨undisturbed_of_faithful moved, fun ok =>
    faithful_of_sound (reaches_sound (run.event ok moved))⟩⟩

/-! ### A set between the two statements of a read -/

/-- The key `k` has expired at the time 5. -/
def expired : Store := ⟨fun key => if key = "k" then some ⟨[1], some ⟨5⟩⟩ else none, ⟨9⟩⟩

/-- A read of `k`, and a set for a minute. -/
def readAndSet : Bool → Request
  | true => .get "k"
  | false => .set "k" [2] (some (60000000000))

/-- A set before the `SELECT` of a read is read. -/
theorem set_then_read : ∃ s : Calls Bool, s.latest "k" = some (some ⟨[2], some ⟨60000000009⟩⟩) ∧ Faithful id s := by
  have undisturbed {s : Calls Bool} {i : Bool} {call : CacheCall}
      {rest : call.Answer → CacheAction (Option (List UInt8))} (h : s.threads i = some (.call call rest))
      (hother : ∀ key, call ≠ .delete key) : Undisturbed readAndSet s (.step i none) := by
    intro key rest' h'
    cases h.symm.trans h'
    exact absurd rfl (hother key)
  have begun : Reaches id readAndSet (Undisturbed readAndSet) (start expired) _ :=
    .event (e := .start false) .refl trivial rfl
  have run := begun.event (e := .step false none) (undisturbed rfl fun _ h => by cases h) rfl
  have run := run.event (e := .step false none) (undisturbed rfl fun _ h => by cases h) rfl
  have run := run.event (e := .step false none) (undisturbed rfl fun _ h => by cases h) rfl
  exact ⟨_, rfl, (reads_spare_live_entries id readAndSet expired _ run).1⟩

/-- The set between the `SELECT` and the `DELETE` of a read is lost. -/
theorem set_lost : ∃ s : Calls Bool, run id readAndSet [.start true, .step true none, .step true none, .start false, .step false none,
      .step false none, .step false none, .step true none, .step true none, .step true none] (start expired) = some s ∧
    (∀ i, ∃ answer, s.threads i = some (.done (.ok answer))) ∧
    s.latest "k" = some (some ⟨[2], some ⟨60000000009⟩⟩) ∧ s.store.clock = ⟨9⟩ ∧
    ((DatabaseCache.get "k").run (CacheCall.step id) [] s.store).2 = .ok none := by
  refine ⟨_, rfl, fun | true => ⟨none, rfl⟩ | false => ⟨none, rfl⟩, rfl, rfl, rfl⟩

end Calls
end Djangors.Cache
