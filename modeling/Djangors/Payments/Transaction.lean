import Djangors.Db
import Djangors.Lib.Program
import Mathlib.Data.List.Nodup

/-! # Payment transactions

The table of transactions and the functions that record them (`djangors-contrib-payments`,
`provider.rs` and `transaction.rs`). Each function is a program of database statements. -/

namespace Djangors.Payments

inductive TransactionStatus where
  | pending
  | success
  | failed
  | refunded
deriving DecidableEq, Repr

def TransactionStatus.asStr : TransactionStatus → String
  | .pending => "pending"
  | .success => "success"
  | .failed => "failed"
  | .refunded => "refunded"

/-- The errors that recording a transaction and handling a webhook raise. -/
inductive PaymentError where
  | unexpectedResponse (message : String)
  | invalidWebhookSignature
deriving DecidableEq, Repr

/-- A row of `djangors_payments_transaction`; the metadata are the text of a JSON value. -/
structure Transaction where
  id : Int
  reference : String
  provider : String
  amountMinor : Int
  currency : String
  status : String
  metadata : Option String
  createdAt : DateTime
  updatedAt : DateTime
deriving DecidableEq, Repr

/-! ### The table -/

/-- An error of the database, with the code of the driver if there is one. -/
structure DbError where
  code : Option String
  message : String
deriving DecidableEq, Repr

/-- The table: `id` is the primary key, and `reference` is `UNIQUE`. -/
structure Table where
  rows : List Transaction
  nextId : Int
  references : (rows.map (·.reference)).Nodup
  ids : (rows.map (·.id)).Nodup
  ids_lt : ∀ row ∈ rows, row.id < nextId

namespace Table

def empty : Table where
  rows := []
  nextId := 1
  references := by simp
  ids := by simp
  ids_lt := by simp

def row? (table : Table) (reference : String) : Option Transaction := table.rows.find? (·.reference == reference)

def uniqueViolation : DbError := ⟨some "23505", "duplicate key value violates unique constraint"⟩

/-- `INSERT … RETURNING *` of a row with a new id. -/
def insert (table : Table) (txn : Transaction) : Table × Except DbError Transaction :=
  if h : txn.reference ∈ table.rows.map (·.reference) then (table, .error uniqueViolation)
  else
    let row := { txn with id := table.nextId }
    ({  rows := table.rows ++ [row]
        nextId := table.nextId + 1
        references := by
          rw [List.map_append]
          exact List.nodup_append'.mpr ⟨table.references, List.nodup_singleton _, by simpa using h⟩
        ids := by
          rw [List.map_append]
          refine List.nodup_append'.mpr ⟨table.ids, List.nodup_singleton _, ?_⟩
          simp only [List.map_cons, List.map_nil, List.disjoint_singleton, List.mem_map, not_exists, not_and]
          exact fun old hold heq => Int.lt_irrefl _ (heq ▸ table.ids_lt old hold)
        ids_lt := by
          intro old hold
          rcases List.mem_append.mp hold with hold | hold
          · exact Int.lt_trans (table.ids_lt old hold) (Int.lt_succ _)
          · rw [List.mem_singleton.mp hold]
            exact Int.lt_succ _ }, .ok row)

/-- The rows after `UPDATE … WHERE "id" = …` with all columns of `txn`. -/
def replaced (rows : List Transaction) (txn : Transaction) : List Transaction :=
  rows.map fun row => if row.id = txn.id then txn else row

/-- `UPDATE` of all columns of the row with the id of `txn`; no row is an error of `update`. -/
def update (table : Table) (txn : Transaction) : Table × Except DbError Unit :=
  if h : ((replaced table.rows txn).map (·.reference)).Nodup then
    ({  rows := replaced table.rows txn
        nextId := table.nextId
        references := h
        ids := by
          have hids : (replaced table.rows txn).map (·.id) = table.rows.map (·.id) := by
            rw [replaced, List.map_map]
            refine List.map_congr_left fun row _ => ?_
            simp only [Function.comp_apply]
            split
            · rename_i heq
              exact heq.symm
            · rfl
          rw [hids]
          exact table.ids
        ids_lt := by
          intro new hnew
          obtain ⟨row, hrow, rfl⟩ := List.mem_map.mp hnew
          have hlt := table.ids_lt row hrow
          split
          · rename_i heq
            exact heq ▸ hlt
          · exact hlt },
      if table.rows.any (·.id == txn.id) then .ok () else .error ⟨none, "Transaction not found"⟩)
  else (table, .error uniqueViolation)

end Table

/-! ### Statements and programs -/

inductive Statement where
  | insert (txn : Transaction)
  | find (reference : String)
  | update (txn : Transaction)

abbrev Statement.Answer : Statement → Type
  | .insert _ => Except DbError Transaction
  | .find _ => Except DbError (Option Transaction)
  | .update _ => Except DbError Unit

def Statement.fail (e : DbError) : (statement : Statement) → statement.Answer
  | .insert _ | .find _ | .update _ => .error e

def Statement.exec (table : Table) : (statement : Statement) → Table × statement.Answer
  | .insert txn => table.insert txn
  | .find reference => (table, .ok (table.row? reference))
  | .update txn => table.update txn

/-- Runs a statement, or fails with the error given and leaves the table as it is. -/
def exec (fault : Option DbError) (statement : Statement) (table : Table) : Table × statement.Answer :=
  match fault with
  | some e => (table, statement.fail e)
  | none => statement.exec table

/-- A function that talks to the database. -/
abbrev Action (α : Type) := Program Statement.Answer (Except PaymentError α)

/-- `x?` -/
def Action.andThen {α β : Type} (action : Action α) (next : α → Action β) : Action β :=
  action.bind fun
    | .ok a => next a
    | .error e => .done (.error e)

/-- `is_unique_violation` -/
def isUniqueViolation (code : String) : Bool := code == "23505" || code == "2067" || code == "1555"

/-- `find_by_reference` -/
def findByReference (reference : String) : Action (Option Transaction) :=
  .call (.find reference) fun
    | .ok row => .done (.ok row)
    | .error e => .done (.error (.unexpectedResponse ("query failed: " ++ e.message)))

/-- The answer of `record_charge_initiated` to an error of its `INSERT`. -/
def recordError (reference : String) (e : DbError) : Action Transaction :=
  if e.code.any isUniqueViolation then
    (findByReference reference).andThen fun
      | some row => .done (.ok row)
      | none => .done (.error (.unexpectedResponse
          ("unique violation on reference `" ++ reference ++ "` but row not found on lookup")))
  else .done (.error (.unexpectedResponse ("failed to record transaction: " ++ e.message)))

/-- The row that `record_charge_initiated` inserts. -/
def pendingRow (id : Int) (reference provider : String) (amountMinor : Int) (currency : String)
    (metadata : Option String) (now : DateTime) : Transaction :=
  { id, reference, provider, amountMinor, currency, status := TransactionStatus.pending.asStr, metadata,
    createdAt := now, updatedAt := now }

/-- `record_charge_initiated` -/
def recordChargeInitiated (reference provider : String) (amountMinor : Int) (currency : String)
    (metadata : Option String) (now : DateTime) : Action Transaction :=
  .call (.insert (pendingRow 0 reference provider amountMinor currency metadata now)) fun
    | .ok saved => .done (.ok saved)
    | .error e => recordError reference e

/-- The row that `mark_transaction_status` writes. -/
def Transaction.marked (txn : Transaction) (newStatus : TransactionStatus) (metadata : Option String) (now : DateTime) :
    Transaction :=
  { txn with status := newStatus.asStr, metadata := metadata.or txn.metadata, updatedAt := now }

/-- `mark_transaction_status` -/
def markTransactionStatus (reference : String) (newStatus : TransactionStatus) (metadata : Option String)
    (now : DateTime) : Action (Option Transaction) :=
  (findByReference reference).andThen fun
    | none => .done (.ok none)
    | some txn => .call (.update (txn.marked newStatus metadata now)) fun
        | .ok () => .done (.ok (some (txn.marked newStatus metadata now)))
        | .error e => .done (.error (.unexpectedResponse ("failed to update transaction: " ++ e.message)))

end Djangors.Payments
