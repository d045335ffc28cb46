import Mathlib.Logic.Function.Basic

/-! # Maps with times to live

What is stored under a key is there until it expires, is deleted, or something else is stored. An implementation
that answers each call like the map, and is then again in step with it, answers every run like the map. -/

namespace TtlMap

structure Entry (υ : Type) where
  value : υ
  expiresAt : Option Int
deriving DecidableEq

inductive Call (κ υ : Type) where
  | get (key : κ)
  | set (key : κ) (value : υ) (ttl : Option Nat)
  | delete (key : κ)

abbrev Map (κ υ : Type) := κ → Option (Entry υ)

section Map
variable {κ υ : Type}

def Entry.live (t : Int) (entry : Entry υ) : Bool := entry.expiresAt.all (t < ·)

def visible (m : Map κ υ) (t : Int) (key : κ) : Option υ := ((m key).filter (·.live t)).map (·.value)

/-- The map after a call at a time, and the answer. -/
def step [DecidableEq κ] (m : Map κ υ) (t : Int) : Call κ υ → Map κ υ × Option υ
  | .get key => (m, visible m t key)
  | .set key value ttl => (Function.update m key (some ⟨value, ttl.map (t + ·)⟩), none)
  | .delete key => (Function.update m key none, none)

/-- The answers of the map to calls at times. -/
def answers [DecidableEq κ] : List (Int × Call κ υ) → Map κ υ → List (Option υ)
  | [], _ => []
  | call :: calls, m => (step m call.1 call.2).2 :: answers calls (step m call.1 call.2).1

/-- From a time on, two maps show the same. -/
def Alike (t : Int) (m m' : Map κ υ) : Prop := ∀ t' key, t ≤ t' → visible m t' key = visible m' t' key

variable {m m' : Map κ υ} {t t' : Int} {key : κ}

theorem Entry.live_mono {entry : Entry υ} (h : t ≤ t') (hlive : entry.live t' = true) : entry.live t = true := by
  unfold Entry.live at hlive ⊢
  cases hexpires : entry.expiresAt with
  | none => rfl
  | some e =>
    rw [hexpires] at hlive
    simp only [Option.all_some, decide_eq_true_eq] at hlive ⊢
    omega

theorem Alike.refl (t : Int) (m : Map κ υ) : Alike t m m := fun _ _ _ => rfl

theorem Alike.later (h : Alike t m m') (ht : t ≤ t') : Alike t' m m' := fun _ key ht' => h _ key (Int.le_trans ht ht')

section Update
variable [DecidableEq κ]

/-- What is stored in both maps counts alike. -/
theorem Alike.update (h : Alike t m m') (key : κ) (entry : Option (Entry υ)) :
    Alike t (Function.update m key entry) (Function.update m' key entry) := by
  intro t' key' ht'
  by_cases hkey : key' = key
  · subst hkey
    simp [visible]
  · have := h t' key' ht'
    simpa [visible, hkey] using this

/-- An entry that has expired may be dropped. -/
theorem Alike.drop (h : Alike t m m') (hdead : visible m t key = none) : Alike t (Function.update m key none) m' := by
  intro t' key' ht'
  by_cases hkey : key' = key
  · subst hkey
    have hlater : visible m t' key' = none := by
      simp only [visible, Option.map_eq_none_iff, Option.filter_eq_none_iff] at hdead ⊢
      exact fun entry hentry hlive => hdead entry hentry (Entry.live_mono ht' hlive)
    rw [← h t' key' ht', hlater]
    simp [visible]
  · have := h t' key' ht'
    simpa [visible, hkey] using this

end Update
end Map

/-! ### Implementations -/

section Implementation
variable {κ υ σ : Type}

/-- The answers of an implementation; there are none when a call fails. -/
def run (implementation : Int → Call κ υ → σ → Option (σ × Option υ)) : List (Int × Call κ υ) → σ → Option (List (Option υ))
  | [], _ => some []
  | call :: calls, s =>
    (implementation call.1 call.2 s).bind fun after => (run implementation calls after.1).map (after.2 :: ·)

variable [DecidableEq κ]

/-- Each call meets a condition, which may depend on what the map holds before it. -/
def Meets (condition : Map κ υ → Int → Call κ υ → Prop) : List (Int × Call κ υ) → Map κ υ → Prop
  | [], _ => True
  | call :: calls, m => condition m call.1 call.2 ∧ Meets condition calls (step m call.1 call.2).1

variable {implementation : Int → Call κ υ → σ → Option (σ × Option υ)} {condition : Map κ υ → Int → Call κ υ → Prop}

/-- An implementation that stays in step with the map answers like the map. -/
theorem run_eq (inStep : Int → σ → Map κ υ → Prop) (later : ∀ t t' s m, t ≤ t' → inStep t s m → inStep t' s m)
    (stays : ∀ t call s m, inStep t s m → condition m t call →
      ∃ s', implementation t call s = some (s', (step m t call).2) ∧ inStep t s' (step m t call).1)
    {calls : List (Int × Call κ υ)} {t : Int} {s : σ} {m : Map κ υ} (inOrder : (t :: calls.map (·.1)).Pairwise (· ≤ ·))
    (meets : Meets condition calls m) (h : inStep t s m) : run implementation calls s = some (answers calls m) := by
  induction calls generalizing t s m with
  | nil => rfl
  | cons call calls ih =>
    obtain ⟨hle, hrest⟩ := List.pairwise_cons.mp inOrder
    obtain ⟨s', hstep, hnext⟩ := stays call.1 call.2 s m (later _ _ _ _ (hle _ (by simp)) h) meets.1
    rw [run, hstep, Option.bind_some, ih hrest meets.2 hnext, answers]
    rfl

end Implementation
end TtlMap

/-! ## Read-through caches

A cache keeps the results of queries `Q` under keys `κ`, each until a time; the results come from a
source that is in some state `σ`. What keeps the cache coherent with the source: dropping entries,
letting time pass, storing a result that was just read, and a write that changes no cached result. -/

namespace ReadThrough

/-- A stored result and the time up to which it counts, if any. -/
structure Timed (ρ : Type) where
  value : ρ
  expiresAt : Option Nat

def Timed.live {ρ : Type} (e : Timed ρ) (now : Nat) : Bool := e.expiresAt.all (now < ·)

theorem Timed.live_mono {ρ : Type} {e : Timed ρ} {now now' : Nat} (h : now ≤ now') (hl : e.live now' = true) :
    e.live now = true := by
  unfold live at hl ⊢
  cases he : e.expiresAt with
  | none => rfl
  | some t =>
    rw [he] at hl
    simp only [Option.all_some, decide_eq_true_eq] at hl ⊢
    omega

section Coherence
variable {Q κ σ ρ : Type} {key : Q → κ} {read : σ → Q → Option ρ} {look look' : κ → Option (Timed ρ)}
  {clock clock' : Nat} {s s' : σ}

/-- Every live entry holds what its query reads from the source. -/
def Coherent (key : Q → κ) (read : σ → Q → Option ρ) (look : κ → Option (Timed ρ)) (clock : Nat) (s : σ) : Prop :=
  ∀ q e, look (key q) = some e → e.live clock = true → read s q = some e.value

theorem coherent_of_none (h : ∀ q, look (key q) = none) : Coherent key read look clock s := fun q e he _ => by
  rw [h q] at he
  cases he

/-- Dropping entries and letting time pass keep a cache coherent. -/
theorem Coherent.mono (h : Coherent key read look clock s) (sub : ∀ k e, look' k = some e → look k = some e)
    (hc : clock ≤ clock') : Coherent key read look' clock' s := fun q e he hl =>
  h q e (sub _ e he) (Timed.live_mono hc hl)

/-- So does storing a result that every query of the key reads. -/
theorem Coherent.put [DecidableEq κ] (h : Coherent key read look clock s) {k : κ} {e : Timed ρ}
    (he : ∀ q, key q = k → read s q = some e.value) : Coherent key read (Function.update look k (some e)) clock s := by
  intro q e' he' hl
  by_cases hq : key q = k
  · rw [hq, Function.update_self] at he'
    rw [he q hq, Option.some.inj he']
  · rw [Function.update_of_ne hq] at he'
    exact h q e' he' hl

/-- So does a write after which the queries with a live entry read the same. -/
theorem Coherent.write (h : Coherent key read look clock s)
    (same : ∀ q e, look (key q) = some e → e.live clock = true → read s' q = read s q) :
    Coherent key read look clock s' := fun q e he hl => (same q e he hl).trans (h q e he hl)

end Coherence

end ReadThrough
