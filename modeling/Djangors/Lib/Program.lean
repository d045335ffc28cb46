import Mathlib.Logic.Basic

/-! # Programs

A program makes calls one after the other; which call comes next depends on the answers so far. What a
call does to the state is given from outside, and a label on each call says what is left open, such as a
failure. -/

/-- A program whose calls `op` are answered in `Answer op`. -/
inductive Program {Op : Type} (Answer : Op → Type) (α : Type) : Type where
  | done (a : α)
  | call (op : Op) (next : Answer op → Program Answer α)

namespace Program
variable {Op : Type} {Answer : Op → Type} {α β σ ε : Type}

def bind : Program Answer α → (α → Program Answer β) → Program Answer β
  | done a, f => f a
  | call op next, f => call op fun answer => (next answer).bind f

@[simp] theorem done_bind (a : α) (f : α → Program Answer β) : (done a : Program Answer α).bind f = f a := rfl

@[simp] theorem call_bind (op : Op) (next : Answer op → Program Answer α) (f : α → Program Answer β) :
    (call op next).bind f = call op fun answer => (next answer).bind f := rfl

section Run
variable [Inhabited ε] (step : ε → (op : Op) → σ → σ × Answer op)

/-- Runs a program alone, one label for each call. -/
def run : Program Answer α → List ε → σ → σ × α
  | done a, _, s => (s, a)
  | call op next, labels, s =>
    let (s', answer) := step (labels.headD default) op s
    (next answer).run labels.tail s'

@[simp] theorem run_done (a : α) (labels : List ε) (s : σ) : (done a : Program Answer α).run step labels s = (s, a) := rfl

@[simp] theorem run_call (op : Op) (next : Answer op → Program Answer α) (labels : List ε) (s : σ) :
    (call op next).run step labels s =
      (next (step (labels.headD default) op s).2).run step labels.tail (step (labels.headD default) op s).1 := rfl

/-- Without labels, a program followed by another runs the one and then the other. -/
theorem run_bind (p : Program Answer α) (f : α → Program Answer β) (s : σ) :
    (p.bind f).run step [] s = (f (p.run step [] s).2).run step [] (p.run step [] s).1 := by
  induction p generalizing s with
  | done a => rfl
  | call op next ih => exact ih _ _

/-- With some labels, the program goes from `s` to `s'` and ends with `a`. -/
def Runs (p : Program Answer α) (s s' : σ) (a : α) : Prop := ∃ labels, p.run step labels s = (s', a)

variable {step} {s s' : σ} {a b : α}

theorem runs_done : (done a : Program Answer α).Runs step s s' b ↔ s' = s ∧ b = a := by
  constructor
  · rintro ⟨_, heq⟩
    cases heq
    exact ⟨rfl, rfl⟩
  · rintro ⟨rfl, rfl⟩
    exact ⟨[], rfl⟩

theorem runs_call {op : Op} {next : Answer op → Program Answer α} :
    (call op next).Runs step s s' a ↔ ∃ label, (next (step label op s).2).Runs step (step label op s).1 s' a := by
  constructor
  · rintro ⟨labels, h⟩
    exact ⟨labels.headD default, labels.tail, h⟩
  · rintro ⟨label, labels, h⟩
    exact ⟨label :: labels, h⟩

/-- A program followed by another runs the one and then the other. -/
theorem runs_bind {p : Program Answer α} {f : α → Program Answer β} {b : β} :
    (p.bind f).Runs step s s' b ↔ ∃ u a, p.Runs step s u a ∧ (f a).Runs step u s' b := by
  induction p generalizing s with
  | done a =>
    simp only [done_bind, runs_done]
    constructor
    · exact fun h => ⟨s, a, ⟨rfl, rfl⟩, h⟩
    · rintro ⟨_, _, ⟨rfl, rfl⟩, h⟩
      exact h
  | call op next ih =>
    simp only [call_bind, runs_call, ih]
    constructor
    · rintro ⟨label, u, a, hp, hf⟩
      exact ⟨u, a, ⟨label, hp⟩, hf⟩
    · rintro ⟨u, a, ⟨label, hp⟩, hf⟩
      exact ⟨label, u, a, hp, hf⟩

end Run

/-! ### The calls of a program -/

/-- Every call that the program can make satisfies `P`, however the calls are answered. -/
def Only (P : Op → Prop) : Program Answer α → Prop
  | done _ => True
  | call op next => P op ∧ ∀ answer, (next answer).Only P

theorem Only.bind {P : Op → Prop} {p : Program Answer α} {f : α → Program Answer β} (hp : p.Only P)
    (hf : ∀ a, (f a).Only P) : (p.bind f).Only P := by
  induction p with
  | done a => exact hf a
  | call op next ih => exact ⟨hp.1, fun answer => ih answer (hp.2 answer)⟩

/-! ### One run -/

section Eval
variable (exec : (op : Op) → σ → σ × Answer op)

/-- Runs a program alone, where every call has one outcome. -/
def eval : Program Answer α → σ → σ × α
  | done a, s => (s, a)
  | call op next, s => (next (exec op s).2).eval (exec op s).1

/-- Every call that is made satisfies `R` in the state it is made in. -/
def Always (R : Op → σ → Prop) : Program Answer α → σ → Prop
  | done _, _ => True
  | call op next, s => R op s ∧ (next (exec op s).2).Always R (exec op s).1

variable {exec} {R R' : Op → σ → Prop} {s : σ}

@[simp] theorem eval_done (a : α) : (done a : Program Answer α).eval exec s = (s, a) := rfl

@[simp] theorem eval_call (op : Op) (next : Answer op → Program Answer α) :
    (call op next).eval exec s = (next (exec op s).2).eval exec (exec op s).1 := rfl

@[simp] theorem always_done (a : α) : (done a : Program Answer α).Always exec R s := trivial

@[simp] theorem always_call (op : Op) (next : Answer op → Program Answer α) :
    (call op next).Always exec R s ↔ R op s ∧ (next (exec op s).2).Always exec R (exec op s).1 := .rfl

theorem eval_bind (p : Program Answer α) (f : α → Program Answer β) :
    (p.bind f).eval exec s = (f (p.eval exec s).2).eval exec (p.eval exec s).1 := by
  induction p generalizing s with
  | done a => rfl
  | call op next ih => exact ih _

theorem always_bind (p : Program Answer α) (f : α → Program Answer β) :
    (p.bind f).Always exec R s ↔ p.Always exec R s ∧ (f (p.eval exec s).2).Always exec R (p.eval exec s).1 := by
  induction p generalizing s with
  | done a => simp
  | call op next ih => rw [call_bind, always_call, ih, always_call, eval_call, and_assoc]

theorem Only.always {P : Op → Prop} {p : Program Answer α} (h : p.Only P) (hR : ∀ op s, P op → R op s) :
    p.Always exec R s := by
  induction p generalizing s with
  | done a => trivial
  | call op next ih => exact ⟨hR op s h.1, ih _ (h.2 _)⟩

/-- Calls that are answered alike can be answered by the one or by the other. -/
theorem Only.eval_congr {exec' : (op : Op) → σ → σ × Answer op} {P : Op → Prop} {p : Program Answer α} (h : p.Only P)
    (heq : ∀ op s, P op → exec op s = exec' op s) : p.eval exec s = p.eval exec' s := by
  induction p generalizing s with
  | done a => rfl
  | call op next ih => rw [eval_call, eval_call, heq op s h.1, ih _ (h.2 _)]

/-- What the calls preserve holds at the end. -/
theorem Always.invariant {I : σ → Prop} {p : Program Answer α} (h : p.Always exec R s) (start : I s)
    (step : ∀ op s, R op s → I s → I (exec op s).1) : I (p.eval exec s).1 := by
  induction p generalizing s with
  | done a => exact start
  | call op next ih => exact ih _ h.2 (step op s h.1 start)

/-- The calls may use what they preserve. -/
theorem Always.imp {I : σ → Prop} {p : Program Answer α} (h : p.Always exec R s) (start : I s)
    (step : ∀ op s, R op s → I s → R' op s ∧ I (exec op s).1) : p.Always exec R' s := by
  induction p generalizing s with
  | done a => trivial
  | call op next ih => exact ⟨(step op s h.1 start).1, ih _ h.2 (step op s h.1 start).2⟩

/-- Two runs whose calls are answered alike end alike. -/
theorem Always.eval_eq {E : σ → σ → Prop} {p : Program Answer α} {t : σ} (h : p.Always exec R s) (start : E s t)
    (step : ∀ op s t, R op s → E s t → (exec op s).2 = (exec op t).2 ∧ E (exec op s).1 (exec op t).1) :
    (p.eval exec s).2 = (p.eval exec t).2 := by
  induction p generalizing s t with
  | done a => rfl
  | call op next ih =>
    obtain ⟨hanswer, hstates⟩ := step op s t h.1 start
    rw [eval_call, eval_call, ← hanswer]
    exact ih _ h.2 hstates

end Eval

end Program

/-! ### Programs that may fail -/

/-- A program that ends with a value or an error. -/
def Fallible {Op : Type} (Answer : Op → Type) (ε α : Type) : Type := Program Answer (Except ε α)

namespace Fallible
variable {Op : Type} {Answer : Op → Type} {ε α β σ : Type}

/-- What follows a program, unless it ends with an error. -/
def onward (f : α → Fallible Answer ε β) : Except ε α → Fallible Answer ε β
  | .ok a => f a
  | .error e => .done (.error e)

instance : Monad (Fallible Answer ε) where
  pure a := .done (.ok a)
  bind p f := Program.bind p (onward f)

/-- A result that needs no call. -/
def lift (result : Except ε α) : Fallible Answer ε α := .done result

section Only
variable {P : Op → Prop}

abbrev Only (P : Op → Prop) (p : Fallible Answer ε α) : Prop := Program.Only P p

theorem only_pure (a : α) : (pure a : Fallible Answer ε α).Only P := trivial

theorem only_lift (result : Except ε α) : (lift result : Fallible Answer ε α).Only P := trivial

theorem only_bind {p : Fallible Answer ε α} {f : α → Fallible Answer ε β} (hp : p.Only P) (hf : ∀ a, (f a).Only P) :
    (p >>= f).Only P := by
  refine Program.Only.bind (f := onward f) hp fun result => ?_
  cases result with
  | ok a => exact hf a
  | error e => trivial

end Only

section Eval
variable (exec : (op : Op) → σ → σ × Answer op)

abbrev eval (p : Fallible Answer ε α) (s : σ) : σ × Except ε α := Program.eval exec p s

abbrev Always (R : Op → σ → Prop) (p : Fallible Answer ε α) (s : σ) : Prop := Program.Always exec R p s

variable {exec} {R : Op → σ → Prop} {s s' : σ} {p : Fallible Answer ε α} {f : α → Fallible Answer ε β}

@[simp] theorem eval_pure (a : α) : (pure a : Fallible Answer ε α).eval exec s = (s, .ok a) := rfl

@[simp] theorem always_pure (a : α) : (pure a : Fallible Answer ε α).Always exec R s := trivial

@[simp] theorem eval_lift (result : Except ε α) : (lift result : Fallible Answer ε α).eval exec s = (s, result) := rfl

@[simp] theorem always_lift (result : Except ε α) : (lift result : Fallible Answer ε α).Always exec R s := trivial

theorem eval_bind : (p >>= f).eval exec s = (onward f (p.eval exec s).2).eval exec (p.eval exec s).1 :=
  Program.eval_bind p (onward f)

theorem eval_bind_ok {a : α} (h : p.eval exec s = (s', .ok a)) : (p >>= f).eval exec s = (f a).eval exec s' := by
  rw [eval_bind, h]
  rfl

theorem eval_bind_error {e : ε} (h : p.eval exec s = (s', .error e)) : (p >>= f).eval exec s = (s', .error e) := by
  rw [eval_bind, h]
  rfl

/-- A program that goes on after another succeeds when both do. -/
theorem eval_bind_eq_ok {b : β} :
    (p >>= f).eval exec s = (s', .ok b) ↔
      ∃ u a, p.eval exec s = (u, .ok a) ∧ (f a).eval exec u = (s', .ok b) := by
  rw [eval_bind]
  obtain ⟨u, result⟩ := p.eval exec s
  cases result with
  | error e => simp [onward]
  | ok a =>
    constructor
    · exact fun h => ⟨u, a, rfl, h⟩
    · rintro ⟨_, _, heq, h⟩
      cases heq
      exact h

theorem always_bind : (p >>= f).Always exec R s ↔
    p.Always exec R s ∧ ∀ a, (p.eval exec s).2 = .ok a → (f a).Always exec R (p.eval exec s).1 := by
  refine (Program.always_bind p (onward f)).trans (and_congr_right fun _ => ?_)
  cases h : (p.eval exec s).2 with
  | error e => simp [onward]
  | ok a => simp [onward]

end Eval
end Fallible
