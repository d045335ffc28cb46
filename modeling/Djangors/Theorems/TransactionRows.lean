import Djangors.Lib.Lists
import Djangors.Payments.Webhook

/-! # Rows of transactions

What each function of the payments crate does to the rows, when any statement may fail. -/

namespace Djangors.Payments

namespace Table
variable {table table' : Table} {txn row : Transaction} {reference : String}

theorem row?_eq_some : table.row? reference = some row ↔ row ∈ table.rows ∧ row.reference = reference :=
  List.find?_key_eq_some table.references

theorem row?_eq_none : table.row? reference = none ↔ reference ∉ table.rows.map (·.reference) := List.find?_key_eq_none

/-- The row is put in the place of the row with its reference, or added. -/
def Sets (table table' : Table) (row : Transaction) : Prop :=
  ∀ reference, table'.row? reference = if reference = row.reference then some row else table.row? reference

theorem Sets.self (h : Sets table table' row) : table'.row? row.reference = some row := by rw [h, if_pos rfl]

theorem Sets.trans {table'' : Table} {row' : Transaction} (h : Sets table table' row) (h' : Sets table' table'' row')
    (same : row'.reference = row.reference) : Sets table table'' row' := by
  intro reference
  rw [h', h, same]
  split <;> rfl

theorem insert_taken (h : table.row? txn.reference = some row) : table.insert txn = (table, .error uniqueViolation) := by
  obtain ⟨hmem, hkey⟩ := row?_eq_some.mp h
  rw [insert, dif_pos (hkey ▸ List.mem_map_of_mem hmem)]

theorem insert_new (h : table.row? txn.reference = none) :
    ∃ after, table.insert txn = (after, .ok { txn with id := table.nextId }) ∧
      Sets table after { txn with id := table.nextId } := by
  rw [insert, dif_neg (row?_eq_none.mp h)]
  refine ⟨_, rfl, fun reference => ?_⟩
  rw [row?, List.find?_append]
  split
  · rename_i heq
    subst heq
    rw [show table.rows.find? (·.reference == txn.reference) = none from h]
    simp
  · rename_i hne
    rw [List.find?_singleton, if_neg (by simpa using Ne.symm hne), Option.or_none]
    rfl

/-- An update of a row that is there. -/
theorem update_row {old : Transaction} (h : table.row? txn.reference = some old) (hid : old.id = txn.id) :
    ∃ after, table.update txn = (after, .ok ()) ∧ Sets table after txn := by
  obtain ⟨hold, hkey⟩ := row?_eq_some.mp h
  have inj : ∀ row ∈ table.rows, row.id = txn.id → row = old := fun row hrow heq =>
    List.inj_on_of_nodup_map table.ids hrow hold (heq.trans hid.symm)
  have hreferences : (replaced table.rows txn).map (·.reference) = table.rows.map (·.reference) := by
    rw [replaced, List.map_map]
    refine List.map_congr_left fun row hrow => ?_
    simp only [Function.comp_apply]
    split
    · rename_i heq
      rw [inj row hrow heq, hkey]
    · rfl
  have hany : (table.rows.any (·.id == txn.id)) = true := List.any_eq_true.mpr ⟨old, hold, beq_iff_eq.mpr hid⟩
  rw [update, dif_pos (hreferences ▸ table.references), if_pos hany]
  refine ⟨_, rfl, fun reference => ?_⟩
  by_cases hsame : reference = txn.reference
  · rw [if_pos hsame]
    exact row?_eq_some.mpr ⟨List.mem_map.mpr ⟨old, hold, if_pos hid⟩, hsame.symm⟩
  · rw [if_neg hsame]
    cases hrow : table.row? reference with
    | none =>
      rw [row?_eq_none] at hrow
      refine row?_eq_none.mpr ?_
      rwa [hreferences]
    | some row =>
      obtain ⟨hmem, rfl⟩ := row?_eq_some.mp hrow
      refine row?_eq_some.mpr ⟨List.mem_map.mpr ⟨row, hmem, if_neg fun heq => hsame ?_⟩, rfl⟩
      rw [inj row hmem heq, hkey]

end Table

/-! ### Functions -/

section Actions
variable {table : Table} {faults : List (Option DbError)} {reference provider currency : String} {amountMinor : Int}
  {metadata : Option String} {now later : DateTime} {status : TransactionStatus}
open Table

/-- What a statement answers when it runs or fails. -/
theorem runs_statement {α : Type} {statement : Statement} {next : statement.Answer → Program Statement.Answer α}
    {after : Table} {result : α} : (Program.call statement next).Runs exec table after result ↔
      (∃ e, (next (statement.fail e)).Runs exec table after result) ∨
        (next (statement.exec table).2).Runs exec (statement.exec table).1 after result := by
  rw [Program.runs_call]
  constructor
  · rintro ⟨_ | e, h⟩
    · exact .inr h
    · exact .inl ⟨e, h⟩
  · rintro (⟨e, h⟩ | h)
    · exact ⟨some e, h⟩
    · exact ⟨none, h⟩

theorem runs_insert {α : Type} {txn : Transaction} {next : Except DbError Transaction → Program Statement.Answer α}
    {after : Table} {result : α} : (Program.call (.insert txn) next).Runs exec table after result ↔
      (∃ e, (next (.error e)).Runs exec table after result) ∨
        (next (table.insert txn).2).Runs exec (table.insert txn).1 after result :=
  runs_statement

theorem runs_update {α : Type} {txn : Transaction} {next : Except DbError Unit → Program Statement.Answer α}
    {after : Table} {result : α} : (Program.call (.update txn) next).Runs exec table after result ↔
      (∃ e, (next (.error e)).Runs exec table after result) ∨
        (next (table.update txn).2).Runs exec (table.update txn).1 after result :=
  runs_statement

theorem runs_andThen {α β : Type} {action : Action α} {next : α → Action β} {after : Table} {result : Except PaymentError β}
    (h : (action.andThen next).Runs exec table after result) :
    (∃ e, action.Runs exec table after (.error e) ∧ result = .error e) ∨
      ∃ between a, action.Runs exec table between (.ok a) ∧ (next a).Runs exec between after result := by
  obtain ⟨between, answer, hp, hf⟩ := Program.runs_bind.mp h
  cases answer with
  | error e =>
    obtain ⟨rfl, rfl⟩ := Program.runs_done.mp hf
    exact .inl ⟨e, hp, rfl⟩
  | ok a => exact .inr ⟨between, a, hp, hf⟩

theorem runs_find {after : Table} {result : Except PaymentError (Option Transaction)}
    (h : (findByReference reference).Runs exec table after result) :
    after = table ∧ ((∃ e, result = .error e) ∨ result = .ok (table.row? reference)) := by
  rcases runs_statement.mp h with ⟨e, h⟩ | h
  · obtain ⟨rfl, rfl⟩ := Program.runs_done.mp h
    exact ⟨rfl, .inl ⟨_, rfl⟩⟩
  · obtain ⟨rfl, rfl⟩ := Program.runs_done.mp h
    exact ⟨rfl, .inr rfl⟩

/-- What `record_charge_initiated` does after an error of its `INSERT`. -/
theorem runs_record_error {e : DbError} {after : Table} {result : Except PaymentError Transaction}
    (h : (recordError reference e).Runs exec table after result) :
    after = table ∧ ∀ row, result = .ok row → table.row? reference = some row := by
  unfold recordError at h
  split at h
  · rcases runs_andThen h with ⟨e, hfind, rfl⟩ | ⟨between, found, hfind, h⟩
    · exact ⟨(runs_find hfind).1, nofun⟩
    · obtain ⟨rfl, ⟨_, hfound⟩ | hfound⟩ := runs_find hfind
      · cases hfound
      · cases hfound
        split at h
        · rename_i row hrow
          obtain ⟨rfl, rfl⟩ := Program.runs_done.mp h
          refine ⟨rfl, ?_⟩
          rintro _ ⟨⟩
          exact hrow
        · obtain ⟨rfl, rfl⟩ := Program.runs_done.mp h
          exact ⟨rfl, nofun⟩
  · obtain ⟨rfl, rfl⟩ := Program.runs_done.mp h
    exact ⟨rfl, nofun⟩

/-- `record_charge_initiated` leaves the table or adds a pending row. -/
theorem runs_record {after : Table} {result : Except PaymentError Transaction}
    (h : (recordChargeInitiated reference provider amountMinor currency metadata now).Runs exec table after result) :
    (after = table ∧ ∀ row, result = .ok row → table.row? reference = some row) ∨
      table.row? reference = none ∧
        Sets table after (pendingRow table.nextId reference provider amountMinor currency metadata now) := by
  rcases runs_insert.mp h with ⟨e, h⟩ | h
  · exact .inl (runs_record_error h)
  · cases hrow : table.row? reference with
    | some row =>
      rw [insert_taken (show table.row? (pendingRow 0 reference provider amountMinor currency metadata now).reference =
        some row from hrow)] at h
      exact .inl (hrow ▸ runs_record_error h)
    | none =>
      obtain ⟨after', hinsert, hsets⟩ := insert_new (show table.row?
        (pendingRow 0 reference provider amountMinor currency metadata now).reference = none from hrow)
      rw [hinsert] at h
      obtain ⟨rfl, _⟩ := Program.runs_done.mp h
      exact .inr ⟨rfl, hsets⟩

/-- `mark_transaction_status` leaves the table or updates the row. -/
theorem runs_mark {after : Table} {result : Except PaymentError (Option Transaction)}
    (h : (markTransactionStatus reference status metadata now).Runs exec table after result) :
    (after = table ∧ ∀ row, result ≠ .ok (some row)) ∨
      ∃ row, table.row? reference = some row ∧ Sets table after (row.marked status metadata now) := by
  rcases runs_andThen h with ⟨e, hfind, rfl⟩ | ⟨between, found, hfind, h⟩
  · exact .inl ⟨(runs_find hfind).1, nofun⟩
  · obtain ⟨rfl, ⟨_, hfound⟩ | hfound⟩ := runs_find hfind
    · cases hfound
    · cases hfound
      cases hrow : between.row? reference with
      | none =>
        rw [hrow] at h
        obtain ⟨rfl, rfl⟩ := Program.runs_done.mp h
        exact .inl ⟨rfl, nofun⟩
      | some row =>
        rw [hrow] at h
        rcases runs_update.mp h with ⟨e, h⟩ | h
        · obtain ⟨rfl, rfl⟩ := Program.runs_done.mp h
          exact .inl ⟨rfl, nofun⟩
        · have hkey := (row?_eq_some.mp hrow).2
          have hold : between.row? (row.marked status metadata now).reference = some row :=
            (congrArg between.row? hkey).trans hrow
          obtain ⟨after', hupdate, hsets⟩ := update_row hold rfl
          rw [hupdate] at h
          obtain ⟨rfl, _⟩ := Program.runs_done.mp h
          exact .inr ⟨row, rfl, hsets⟩

/-- Without failures, `mark_transaction_status` updates the row that is there. -/
theorem mark_runs {row : Transaction} (h : table.row? reference = some row) :
    ∃ after, (markTransactionStatus reference status metadata now).Runs exec table after
      (.ok (some (row.marked status metadata now))) ∧ Sets table after (row.marked status metadata now) := by
  have hold : table.row? (row.marked status metadata now).reference = some row :=
    (congrArg table.row? (row?_eq_some.mp h).2).trans h
  obtain ⟨after, hupdate, hsets⟩ := update_row hold rfl
  refine ⟨after, Program.runs_bind.mpr ⟨table, .ok (some row), ?_, ?_⟩, hsets⟩
  · refine runs_statement.mpr (.inr ?_)
    exact Program.runs_done.mpr ⟨rfl, by rw [h]⟩
  · refine runs_update.mpr (.inr ?_)
    rw [hupdate]
    exact Program.runs_done.mpr ⟨rfl, rfl⟩

theorem runs_orDisappeared {between : String} {after : Table} {result : Except PaymentError Transaction}
    (h : (orDisappeared between (markTransactionStatus reference status metadata now)).Runs exec table after result) :
    (after = table ∧ ∃ e, result = .error e) ∨
      ∃ row, table.row? reference = some row ∧ Sets table after (row.marked status metadata now) := by
  rcases runs_andThen h with ⟨e, hmark, rfl⟩ | ⟨u, found, hmark, h⟩
  · rcases runs_mark hmark with ⟨rfl, _⟩ | hset
    · exact .inl ⟨rfl, e, rfl⟩
    · exact .inr hset
  · cases found with
    | none =>
      obtain ⟨rfl, rfl⟩ := Program.runs_done.mp h
      rcases runs_mark hmark with ⟨rfl, _⟩ | hset
      · exact .inl ⟨rfl, _, rfl⟩
      · exact .inr hset
    | some txn =>
      obtain ⟨rfl, _⟩ := Program.runs_done.mp h
      rcases runs_mark hmark with ⟨_, hnone⟩ | hset
      · exact absurd rfl (hnone txn)
      · exact .inr hset

/-- A confirmed charge fails, or its row is marked: the row that was there, or the new one. -/
theorem runs_confirm {after : Table} {result : Except PaymentError Transaction}
    (h : (confirmCharge reference provider amountMinor currency now later).Runs exec table after result) :
    ((∃ e, result = .error e) ∧ (after = table ∨ table.row? reference = none ∧
        Sets table after (pendingRow table.nextId reference provider amountMinor currency none now))) ∨
      ∃ row, (table.row? reference = some row ∨ table.row? reference = none ∧
          row = pendingRow table.nextId reference provider amountMinor currency none now) ∧
        Sets table after (row.marked .success none later) := by
  rcases runs_andThen h with ⟨e, hfind, rfl⟩ | ⟨between, found, hfind, h⟩
  · exact .inl ⟨⟨e, rfl⟩, .inl (runs_find hfind).1⟩
  · obtain ⟨rfl, ⟨_, hfound⟩ | hfound⟩ := runs_find hfind
    · cases hfound
    · cases hfound
      cases hrow : between.row? reference with
      | some row =>
        rw [hrow] at h
        rcases runs_orDisappeared h with ⟨rfl, herr⟩ | ⟨row', hrow', hsets⟩
        · exact .inl ⟨herr, .inl rfl⟩
        · exact .inr ⟨row', .inl (hrow ▸ hrow'), hsets⟩
      | none =>
        rw [hrow] at h
        rcases runs_andThen h with ⟨e, hrecord, rfl⟩ | ⟨u, row, hrecord, h⟩
        · rcases runs_record hrecord with ⟨rfl, _⟩ | ⟨_, hsets⟩
          · exact .inl ⟨⟨e, rfl⟩, .inl rfl⟩
          · exact .inl ⟨⟨e, rfl⟩, .inr ⟨rfl, hsets⟩⟩
        · rcases runs_record hrecord with ⟨_, hold⟩ | ⟨_, hsets⟩
          · exact absurd (hrow.symm.trans (hold row rfl)) nofun
          · rcases runs_orDisappeared h with ⟨rfl, herr⟩ | ⟨row', hrow', hsets'⟩
            · exact .inl ⟨herr, .inr ⟨rfl, hsets⟩⟩
            · cases hsets.self.symm.trans hrow'
              exact .inr ⟨_, .inr ⟨rfl, rfl⟩, hsets.trans hsets' rfl⟩

/-- Without failures, a confirmed charge for a row that is there marks it. -/
theorem confirm_runs {row : Transaction} (h : table.row? reference = some row) :
    ∃ after, (confirmCharge reference provider amountMinor currency now later).Runs exec table after
      (.ok (row.marked .success none later)) ∧ Sets table after (row.marked .success none later) := by
  obtain ⟨after, hmark, hsets⟩ : ∃ after, (markTransactionStatus reference .success none later).Runs exec table after
    (.ok (some (row.marked .success none later))) ∧ Sets table after (row.marked .success none later) := mark_runs h
  refine ⟨after, Program.runs_bind.mpr ⟨table, .ok (some row), ?_, ?_⟩, hsets⟩
  · refine runs_statement.mpr (.inr ?_)
    exact Program.runs_done.mpr ⟨rfl, by rw [h]⟩
  · exact Program.runs_bind.mpr ⟨after, _, hmark, Program.runs_done.mpr ⟨rfl, rfl⟩⟩

end Actions

end Djangors.Payments
