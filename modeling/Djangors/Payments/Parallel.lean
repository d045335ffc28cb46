import Djangors.Payments.Webhook
import Mathlib.Logic.Function.Basic

/-! # Calls side by side

Calls of the payments crate that run at the same time: each step is one database statement of one of
them. -/

namespace Djangors.Payments

/-- What a call does to the row of its reference, taken as one step: it may record the row, with the metadata
    given, and then may write a status, with metadata if they are given. -/
structure Part where
  record : Option (Option String)
  write : Option (TransactionStatus × Option String)
deriving DecidableEq, Repr

/-- The status and the metadata of a row. -/
abbrev Outcome := String × Option String

def Part.written (part : Part) (outcome : Option Outcome) : Option Outcome :=
  match part.write with
  | none => outcome
  | some (status, metadata) => outcome.map fun (_, old) => (status.asStr, metadata.or old)

def Part.effect (part : Part) (outcome : Option Outcome) : Option Outcome :=
  part.written (outcome.or (part.record.map fun metadata => (TransactionStatus.pending.asStr, metadata)))

def Table.outcome (table : Table) (reference : String) : Option Outcome :=
  (table.row? reference).map fun row => (row.status, row.metadata)

section Parts
variable (provider : Provider) (parsers : Parsers)

def Call.part : Call → Part
  | .initiate _ _ _ _ metadata _ => ⟨some metadata, none⟩
  | .mark _ status metadata _ => ⟨none, some (status, metadata)⟩
  | call => if (call.settles provider parsers).isSome then ⟨some none, some (.success, none)⟩ else ⟨none, none⟩

/-- The call is for this reference. -/
def Call.Concerns (reference : String) : Call → Prop
  | .initiate own .. | .mark own .. => own = reference
  | call => ∀ own charge, call.settles provider parsers = some (own, charge) → own = reference

end Parts

/-! ### Interleavings -/

/-- The table, what each call still has to do, and the call that has inserted a row. -/
structure Parallel (ι : Type) where
  table : Table
  threads : ι → Action (Option Transaction)
  creator : Option ι

def Statement.inserts : (statement : Statement) → statement.Answer → Bool
  | .insert _, .ok _ => true
  | .insert _, .error _ => false
  | .find _, _ | .update _, _ => false

section Runs
variable {ι : Type} [DecidableEq ι]

/-- A call runs its next statement. -/
def Parallel.next (s : Parallel ι) (i : ι) (statement : Statement)
    (rest : statement.Answer → Action (Option Transaction)) : Parallel ι where
  table := (statement.exec s.table).1
  threads := Function.update s.threads i (rest (statement.exec s.table).2)
  creator := if statement.inserts (statement.exec s.table).2 then some i else s.creator

/-- The states that interleavings of the statements reach; each statement meets a condition when it runs. -/
inductive Interleaves (actions : ι → Action (Option Transaction)) (table₀ : Table)
    (meets : Parallel ι → ι → Statement → Prop) : Parallel ι → Prop
  | start : Interleaves actions table₀ meets ⟨table₀, actions, none⟩
  | step {s : Parallel ι} {i : ι} {statement : Statement} {rest : statement.Answer → Action (Option Transaction)}
      (earlier : Interleaves actions table₀ meets s) (call : s.threads i = .call statement rest)
      (ok : meets s i statement) : Interleaves actions table₀ meets (s.next i statement rest)

/-- The table after the actions, one after the other. -/
def sequentially (actions : ι → Action (Option Transaction)) (order : List ι) (table : Table) : Table :=
  order.foldl (fun table i => ((actions i).run exec [] table).1) table

/-- A call that passes no metadata writes back the metadata that the row has; and if it has inserted the row itself,
    the row has none. -/
def KeepsMetadata (parts : ι → Part) (s : Parallel ι) (i : ι) : Statement → Prop
  | .update txn => ∀ status row, (parts i).write = some (status, none) → s.table.row? txn.reference = some row →
      row.metadata = txn.metadata ∧ (s.creator = some i → row.metadata = none)
  | _ => True

end Runs

end Djangors.Payments
