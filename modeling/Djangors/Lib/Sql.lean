import Mathlib.Data.List.Basic

/-! # SQL conditions

Conditions of SQL statements over any type `ω` of comparison operators, `π` of parameters and `κ` of
stored values, with the three-valued meaning the SQL standard gives them. A parameter is a
placeholder in a statement as it is written and a value once it is bound (`Pred.map`). -/

namespace Sql

/-! ## Three-valued logic -/

/-- `AND`; `none` is the truth value unknown. -/
def and3 : Option Bool → Option Bool → Option Bool
  | some false, _ => some false
  | some true, b => b
  | none, some false => some false
  | none, _ => none

/-- `OR`. -/
def or3 : Option Bool → Option Bool → Option Bool
  | some true, _ => some true
  | some false, b => b
  | none, some true => some true
  | none, _ => none

theorem and3_eq_true {a b : Option Bool} : and3 a b = some true ↔ a = some true ∧ b = some true := by
  rcases a with _ | _ | _ <;> rcases b with _ | _ | _ <;> simp [and3]

theorem and3_assoc (a b c : Option Bool) : and3 (and3 a b) c = and3 a (and3 b c) := by
  rcases a with _ | _ | _ <;> rcases b with _ | _ | _ <;> rcases c with _ | _ | _ <;> rfl

theorem or3_assoc (a b c : Option Bool) : or3 (or3 a b) c = or3 a (or3 b c) := by
  rcases a with _ | _ | _ <;> rcases b with _ | _ | _ <;> rcases c with _ | _ | _ <;> rfl

@[simp] theorem and3_true (a : Option Bool) : and3 a (some true) = a := by
  rcases a with _ | _ | _ <;> rfl

@[simp] theorem true_and3 (a : Option Bool) : and3 (some true) a = a := rfl

@[simp] theorem or3_false (a : Option Bool) : or3 a (some false) = a := by
  rcases a with _ | _ | _ <;> rfl

@[simp] theorem false_or3 (a : Option Bool) : or3 (some false) a = a := rfl

/-! ## Conditions -/

/-- A reference to a column: bare text, a quoted name, or a quoted name of a quoted table. -/
inductive ColRef where
  | bare (text : String)
  | column (name : String)
  | qualified (table name : String)
deriving DecidableEq, Repr

/-- The name of the column referred to. -/
def ColRef.name : ColRef → String
  | .bare text => text
  | .column name => name
  | .qualified _ name => name

/-- The right-hand side of a comparison: a parameter, a column, or a column between wildcards
    (`'%' || col || '%'`). -/
inductive Operand (π : Type) where
  | param (p : π)
  | column (c : ColRef)
  | pattern (before after : Bool) (c : ColRef)
deriving DecidableEq, Repr

/-- The condition of a `WHERE` clause. The filters of a subquery are a conjunction; a subquery without
    filters has no `WHERE` of its own. -/
inductive Pred (ω π : Type) where
  | cmp (lhs : ColRef) (op : ω) (rhs : Operand π)
  | inList (lhs : ColRef) (items : List π)
  | isNull (lhs : ColRef) (negated : Bool)
  | conj (ps : List (Pred ω π))
  | disj (ps : List (Pred ω π))
  | neg (p : Pred ω π)
  | exists_ (negated : Bool) (table : String) (filters : List (Pred ω π))
  | raw (text : String)

/-- Induction over a condition with the hypothesis for every member of a list of conditions. -/
@[elab_as_elim]
theorem Pred.ind {ω π : Type} {P : Pred ω π → Prop} (cmp : ∀ l o r, P (.cmp l o r))
    (inList : ∀ l items, P (.inList l items)) (isNull : ∀ l n, P (.isNull l n))
    (conj : ∀ ps, (∀ p ∈ ps, P p) → P (.conj ps)) (disj : ∀ ps, (∀ p ∈ ps, P p) → P (.disj ps))
    (neg : ∀ p, P p → P (.neg p)) (exists_ : ∀ n t ps, (∀ p ∈ ps, P p) → P (.exists_ n t ps))
    (raw : ∀ t, P (.raw t)) (p : Pred ω π) : P p :=
  @Pred.rec ω π P (fun ps => ∀ p ∈ ps, P p) cmp inList isNull conj disj neg exists_ raw
    (by simp) (fun p ps hp hps q hq => by
      rcases List.mem_cons.mp hq with rfl | hq
      · exact hp
      · exact hps q hq) p

def Operand.map {π π' : Type} (f : π → π') : Operand π → Operand π'
  | .param p => .param (f p)
  | .column c => .column c
  | .pattern b a c => .pattern b a c

mutual

/-- Replaces every parameter of a condition. -/
def Pred.map {ω π π' : Type} (f : π → π') : Pred ω π → Pred ω π'
  | .cmp l o r => .cmp l o (r.map f)
  | .inList l items => .inList l (items.map f)
  | .isNull l n => .isNull l n
  | .conj ps => .conj (Pred.mapAll f ps)
  | .disj ps => .disj (Pred.mapAll f ps)
  | .neg p => .neg (p.map f)
  | .exists_ n t ps => .exists_ n t (Pred.mapAll f ps)
  | .raw t => .raw t

def Pred.mapAll {ω π π' : Type} (f : π → π') : List (Pred ω π) → List (Pred ω π')
  | [] => []
  | p :: ps => p.map f :: Pred.mapAll f ps

end

theorem Pred.mapAll_eq_map {ω π π' : Type} (f : π → π') (ps : List (Pred ω π)) :
    Pred.mapAll f ps = ps.map (Pred.map f) := by
  induction ps with
  | nil => rfl
  | cons p ps ih => rw [Pred.mapAll, List.map_cons, ih]

/-! ## Parameters -/

def Operand.params {π : Type} : Operand π → List π
  | .param p => [p]
  | .column _ => []
  | .pattern _ _ _ => []

mutual

/-- The parameters of a condition, in the order of its text. -/
def Pred.params {ω π : Type} : Pred ω π → List π
  | .cmp _ _ r => r.params
  | .inList _ items => items
  | .isNull _ _ => []
  | .conj ps => Pred.paramsAll ps
  | .disj ps => Pred.paramsAll ps
  | .neg p => p.params
  | .exists_ _ _ ps => Pred.paramsAll ps
  | .raw _ => []

def Pred.paramsAll {ω π : Type} : List (Pred ω π) → List π
  | [] => []
  | p :: ps => p.params ++ Pred.paramsAll ps

end

section Map
variable {ω π π' π'' : Type}

@[simp] theorem Operand.map_map (f : π → π') (g : π' → π'') (o : Operand π) :
    (o.map f).map g = o.map fun p => g (f p) := by
  cases o <;> rfl

theorem Operand.map_congr {f g : π → π'} {o : Operand π} (h : ∀ p ∈ o.params, f p = g p) : o.map f = o.map g := by
  cases o with
  | param p => rw [map, map, h p (by simp [params])]
  | column c => rfl
  | pattern b a c => rfl

theorem Pred.mem_paramsAll {ps : List (Pred ω π)} {x : π} : x ∈ Pred.paramsAll ps ↔ ∃ p ∈ ps, x ∈ p.params := by
  induction ps with
  | nil => simp [paramsAll]
  | cons p ps ih => simp [paramsAll, ih]

theorem Pred.map_map (f : π → π') (g : π' → π'') (p : Pred ω π) : (p.map f).map g = p.map fun x => g (f x) := by
  induction p using Pred.ind with
  | cmp l o r => simp [map]
  | inList l items => simp [map]
  | isNull l n => rfl
  | raw t => rfl
  | neg p ih => rw [map, map, map, ih]
  | conj ps ih => simpa [map, mapAll_eq_map] using ih
  | disj ps ih => simpa [map, mapAll_eq_map] using ih
  | exists_ n t ps ih => simpa [map, mapAll_eq_map] using ih

/-- A condition is replaced the same way by functions that agree on its parameters. -/
theorem Pred.map_congr {f g : π → π'} {p : Pred ω π} (h : ∀ x ∈ p.params, f x = g x) : p.map f = p.map g := by
  have all {ps : List (Pred ω π)} (ih : ∀ p ∈ ps, (∀ x ∈ p.params, f x = g x) → p.map f = p.map g)
      (hx : ∀ x ∈ Pred.paramsAll ps, f x = g x) : Pred.mapAll f ps = Pred.mapAll g ps := by
    rw [mapAll_eq_map, mapAll_eq_map]
    exact List.map_congr_left fun p hp => ih p hp fun x hx' => hx x (mem_paramsAll.mpr ⟨p, hp, hx'⟩)
  induction p using Pred.ind with
  | cmp l o r => rw [map, map, Operand.map_congr h]
  | inList l items => exact congrArg (inList l) (List.map_congr_left h)
  | isNull l n => rfl
  | raw t => rfl
  | neg p ih => rw [map, map, ih h]
  | conj ps ih => rw [map, map, all ih h]
  | disj ps ih => rw [map, map, all ih h]
  | exists_ n t ps ih => rw [map, map, all ih h]

end Map

/-! ## Column references -/

def Operand.refs {π : Type} : Operand π → List ColRef
  | .param _ => []
  | .column c => [c]
  | .pattern _ _ c => [c]

mutual

/-- The column references of a condition, in the order of its text. -/
def Pred.refs {ω π : Type} : Pred ω π → List ColRef
  | .cmp l _ r => l :: r.refs
  | .inList l _ => [l]
  | .isNull l _ => [l]
  | .conj ps => Pred.refsAll ps
  | .disj ps => Pred.refsAll ps
  | .neg p => p.refs
  | .exists_ _ _ ps => Pred.refsAll ps
  | .raw _ => []

def Pred.refsAll {ω π : Type} : List (Pred ω π) → List ColRef
  | [] => []
  | p :: ps => p.refs ++ Pred.refsAll ps

end

/-! ## Meaning -/

/-- A row: its columns with their values. -/
abbrev Row (κ : Type) := List (String × κ)

/-- The row with another value in column `c`. -/
def Row.set {κ : Type} (r : Row κ) (c : String) (v : κ) : Row κ :=
  r.map fun (c', v') => if c' = c then (c', v) else (c', v')

/-- The tables of a database by name. -/
abbrev Tables (κ : Type) := String → List (Row κ)

/-- A table of the `FROM` clause of a query with the row it stands at. -/
structure Frame (κ : Type) where
  table : String
  row : Row κ

/-- What the database server gives to the comparison operators, to wildcards around a value and to a
    condition that is plain text. -/
structure Interp (ω κ : Type) where
  compare : ω → κ → κ → Option Bool
  equal : κ → κ → Option Bool
  isNull : κ → Bool
  pattern : Bool → Bool → κ → κ
  raw : String → List (Frame κ) → Option Bool

section Eval
variable {ω κ : Type} (I : Interp ω κ) (db : Tables κ)

/-- A column is looked up in the innermost query that has it, a qualified one in the innermost query
    on its table. -/
def ColRef.value (env : List (Frame κ)) : ColRef → Option κ
  | .bare c => env.findSome? fun f => f.row.lookup c
  | .column c => env.findSome? fun f => f.row.lookup c
  | .qualified t c => (env.find? fun f => f.table == t).bind fun f => f.row.lookup c

def Operand.value (env : List (Frame κ)) : Operand κ → Option κ
  | .param v => some v
  | .column c => c.value env
  | .pattern b a c => (c.value env).map (I.pattern b a)

mutual

/-- The truth value of a bound condition; `env` holds the queries around it, innermost first. -/
def Pred.eval : List (Frame κ) → Pred ω κ → Option Bool
  | env, .cmp l o r => (l.value env).bind fun a => (r.value I env).bind fun b => I.compare o a b
  | env, .inList l items => (l.value env).bind fun a => (items.map (I.equal a)).foldr or3 (some false)
  | env, .isNull l n => (l.value env).map fun a => I.isNull a != n
  | env, .conj ps => Pred.evalConj env ps
  | env, .disj ps => Pred.evalDisj env ps
  | env, .neg p => (Pred.eval env p).map (!·)
  | env, .exists_ n t ps => some (((db t).any fun r => Pred.evalConj (⟨t, r⟩ :: env) ps == some true) != n)
  | env, .raw t => I.raw t env

def Pred.evalConj : List (Frame κ) → List (Pred ω κ) → Option Bool
  | _, [] => some true
  | env, p :: ps => and3 (Pred.eval env p) (Pred.evalConj env ps)

def Pred.evalDisj : List (Frame κ) → List (Pred ω κ) → Option Bool
  | _, [] => some false
  | env, p :: ps => or3 (Pred.eval env p) (Pred.evalDisj env ps)

end

/-- A condition holds of a row of table `t` when it is true, not when it is unknown. -/
def Pred.holds (t : String) (p : Pred ω κ) (r : Row κ) : Bool :=
  p.eval I db [⟨t, r⟩] == some true

variable {I db}

theorem Pred.evalConj_eq_true {env : List (Frame κ)} {ps : List (Pred ω κ)} :
    Pred.evalConj I db env ps = some true ↔ ∀ p ∈ ps, p.eval I db env = some true := by
  induction ps with
  | nil => simp [Pred.evalConj]
  | cons p ps ih => rw [Pred.evalConj, and3_eq_true, ih, List.forall_mem_cons]

end Eval

end Sql
