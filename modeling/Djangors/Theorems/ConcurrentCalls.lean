import Djangors.Payments.Parallel
import Djangors.Theorems.Webhooks
import Mathlib.Data.Finset.Dedup
import Mathlib.Data.Fintype.Basic

/-! # Calls side by side

What every call still has to do is known from how far it has come, so no interleaving makes a call fail. An
update that writes back the metadata of the row acts like the whole call run at that moment. -/

namespace Djangors.Payments
open Table

/-! ### Programs -/

section Programs
variable (reference : String)

def Ends (p : Action (Option Transaction)) : Prop := ∃ found, p = .done (.ok found)

/-- The program writes the row that it has read. -/
def Writes (write : TransactionStatus × Option String) (txn : Transaction) (p : Action (Option Transaction)) : Prop :=
  ∃ later rest, p = .call (.update (txn.marked write.1 write.2 later)) rest ∧ Ends (rest (.ok ()))

/-- The program looks for the row. -/
def FindsOr (found : Transaction → Action (Option Transaction) → Prop) (missing : Action (Option Transaction) → Prop)
    (p : Action (Option Transaction)) : Prop :=
  ∃ rest, p = .call (.find reference) rest ∧ (∀ txn, found txn (rest (.ok (some txn)))) ∧ missing (rest (.ok none))

def Finds (found : Transaction → Action (Option Transaction) → Prop) : Action (Option Transaction) → Prop :=
  FindsOr reference found fun _ => True

/-- The program inserts a pending row, or looks for the row that is in its way. -/
def Inserts (metadata : Option String) (recorded : Action (Option Transaction) → Prop) (p : Action (Option Transaction)) :
    Prop :=
  ∃ id name amountMinor currency now rest,
    p = .call (.insert (pendingRow id reference name amountMinor currency metadata now)) rest ∧
      (∀ saved, recorded (rest (.ok saved))) ∧ Finds reference (fun _ => recorded) (rest (.error uniqueViolation))

/-- What a call does once its row is recorded. -/
def Goes (part : Part) (p : Action (Option Transaction)) : Prop :=
  match part.write with
  | none => Ends p
  | some write => Finds reference (Writes write) p

/-- The program of a whole call. -/
def Starts (part : Part) (p : Action (Option Transaction)) : Prop :=
  match part.record, part.write with
  | none, none => ∃ e, p = .done (.error e)
  | none, some write => FindsOr reference (Writes write) Ends p
  | some metadata, none => Inserts reference metadata (Goes reference part) p
  | some metadata, some _ =>
    FindsOr reference (fun _ => Goes reference part) (Inserts reference metadata (Goes reference part)) p

variable {reference} {provider : Provider} {parsers : Parsers} {status : TransactionStatus} {metadata : Option String}
  {now later : DateTime} {call : Call}

theorem confirm_starts (name currency : String) (amountMinor : Int) :
    Starts reference ⟨some none, some (.success, none)⟩
      ((confirmCharge reference name amountMinor currency now later).andThen fun txn => .done (.ok (some txn))) := by
  refine ⟨_, rfl, fun _ => ?_, _, _, _, _, _, _, rfl, fun _ => ?_, _, rfl, fun _ => ?_, trivial⟩
  · exact ⟨_, rfl, fun txn => ⟨_, _, rfl, _, rfl⟩, trivial⟩
  · exact ⟨_, rfl, fun txn => ⟨_, _, rfl, _, rfl⟩, trivial⟩
  · exact ⟨_, rfl, fun txn => ⟨_, _, rfl, _, rfl⟩, trivial⟩

theorem delivery_starts (delivery : call.isDelivery = true)
    (concerns : ∀ own charge, call.settles provider parsers = some (own, charge) → own = reference) :
    Starts reference (if (call.settles provider parsers).isSome then ⟨some none, some (.success, none)⟩ else ⟨none, none⟩)
      (call.action provider parsers) := by
  rcases delivery_action delivery with ⟨hnone, e, haction⟩ | ⟨own, charge, now, later, hsettles, haction⟩
  · rw [hnone, haction]
    exact ⟨e, rfl⟩
  · rw [hsettles, haction, concerns own charge hsettles]
    exact confirm_starts ..

/-- A call starts as its part says. -/
theorem action_starts (concerns : call.Concerns provider parsers reference) :
    Starts reference (call.part provider parsers) (call.action provider parsers) := by
  cases call with
  | initiate =>
    cases concerns
    exact ⟨_, _, _, _, _, _, rfl, fun _ => ⟨_, rfl⟩, _, rfl, fun _ => ⟨_, rfl⟩, trivial⟩
  | mark =>
    cases concerns
    exact ⟨_, rfl, fun _ => ⟨_, _, rfl, _, rfl⟩, _, rfl⟩
  | paystack => exact delivery_starts rfl concerns
  | bachs => exact delivery_starts rfl concerns

end Programs

/-! ### One call after the other -/

section Sequential
variable {reference : String} {table table' : Table} {part : Part} {p : Action (Option Transaction)} {row : Transaction}
  {write : TransactionStatus × Option String} {labels : List (Option DbError)}

theorem outcome_sets (sets : Sets table table' row) (hrow : row.reference = reference) :
    table'.outcome reference = some (row.status, row.metadata) := by
  rw [outcome, ← hrow, sets.self]
  rfl

theorem outcome_row (h : table.row? reference = some row) : table.outcome reference = some (row.status, row.metadata) := by
  rw [outcome, h]
  rfl

theorem outcome_eq_none : table.outcome reference = none ↔ table.row? reference = none := Option.map_eq_none_iff

theorem ends_run (h : Ends p) : (p.run exec [] table).1 = table := by
  obtain ⟨found, rfl⟩ := h
  rfl

theorem finds_run (table : Table) {found : Transaction → Action (Option Transaction) → Prop} {missing : Action (Option Transaction) → Prop}
    (h : FindsOr reference found missing p) :
    ∃ q, p.run exec [] table = q.run exec [] table ∧ match table.row? reference with
      | some row => found row q
      | none => missing q := by
  obtain ⟨rest, rfl, hfound, hmissing⟩ := h
  refine ⟨rest (.ok (table.row? reference)), rfl, ?_⟩
  cases table.row? reference with
  | none => exact hmissing
  | some row => exact hfound row

/-- The row that was read is written. -/
theorem writes_run (h : Writes write row p) (hrow : table.row? reference = some row) :
    (p.run exec [] table).1.outcome reference = some (write.1.asStr, write.2.or row.metadata) := by
  obtain ⟨later, rest, rfl, found, hrest⟩ := h
  have hkey := (row?_eq_some.mp hrow).2
  have hold : table.row? (row.marked write.1 write.2 later).reference = some row := (congrArg table.row? hkey).trans hrow
  obtain ⟨after, hupdate, hsets⟩ := update_row hold rfl
  rw [Program.run_call]
  change ((rest (table.update (row.marked write.1 write.2 later)).2).run exec []
    (table.update (row.marked write.1 write.2 later)).1).1.outcome reference = _
  rw [hupdate, hrest]
  exact outcome_sets hsets hkey

/-- A call goes on after its row is recorded. -/
theorem goes_run (h : Goes reference part p) (hrow : table.row? reference = some row) :
    (p.run exec [] table).1.outcome reference = part.written (some (row.status, row.metadata)) := by
  unfold Goes at h
  unfold Part.written
  split at h
  · rename_i hwrite
    rw [hwrite, ends_run h]
    exact outcome_row hrow
  · rename_i write hwrite
    obtain ⟨q, hq, hfound⟩ := finds_run table h
    rw [hrow] at hfound
    rw [hwrite, hq, writes_run hfound hrow]
    rfl

theorem inserts_run {metadata : Option String} (h : Inserts reference metadata (Goes reference part) p) :
    (p.run exec [] table).1.outcome reference =
      part.written ((table.outcome reference).or (some (TransactionStatus.pending.asStr, metadata))) := by
  obtain ⟨id, name, amountMinor, currency, now, rest, rfl, hrecorded, hconflict⟩ := h
  rw [Program.run_call]
  change ((rest (table.insert _).2).run exec [] (table.insert _).1).1.outcome reference = _
  cases hrow : table.row? reference with
  | some row =>
    rw [insert_taken (show table.row? (pendingRow id reference name amountMinor currency metadata now).reference = some row
      from hrow), outcome_row hrow, Option.some_or]
    obtain ⟨q, hq, hfound⟩ := finds_run table hconflict
    rw [hrow] at hfound
    rw [hq]
    exact goes_run hfound hrow
  | none =>
    obtain ⟨after, hinsert, hsets⟩ := insert_new (show table.row?
      (pendingRow id reference name amountMinor currency metadata now).reference = none from hrow)
    rw [hinsert, outcome_eq_none.mpr hrow, Option.none_or]
    exact goes_run (hrecorded _) hsets.self

/-- A call alone does what its part says. -/
theorem starts_run (h : Starts reference part p) :
    (p.run exec [] table).1.outcome reference = part.effect (table.outcome reference) := by
  unfold Starts at h
  unfold Part.effect
  split at h
  · rename_i hrecord hwrite
    obtain ⟨e, rfl⟩ := h
    rw [Part.written, hwrite, hrecord, Option.map_none, Option.or_none]
    rfl
  · rename_i write hrecord hwrite
    rw [hrecord, Option.map_none, Option.or_none, Part.written, hwrite]
    obtain ⟨q, hq, hfound⟩ := finds_run table h
    rw [hq]
    cases hrow : table.row? reference with
    | none =>
      rw [hrow] at hfound
      rw [ends_run hfound, outcome_eq_none.mpr hrow]
      rfl
    | some row =>
      rw [hrow] at hfound
      rw [writes_run hfound hrow, outcome_row hrow]
      rfl
  · rename_i metadata hrecord hwrite
    rw [hrecord]
    exact inserts_run h
  · rename_i metadata write hrecord hwrite
    rw [hrecord]
    obtain ⟨q, hq, hfound⟩ := finds_run table h
    rw [hq]
    cases hrow : table.row? reference with
    | none =>
      rw [hrow] at hfound
      exact inserts_run hfound
    | some row =>
      rw [hrow] at hfound
      rw [goes_run hfound hrow, outcome_row hrow]
      rfl

end Sequential

/-! ### Stages -/

/-- How far a call has come. -/
inductive Stage where
  | fresh
  | missing
  | conflicted
  | recorded
  | read (txn : Transaction)
  | ended

section Interleaving
variable {ι : Type} (reference : String) (parts : ι → Part) (actions : ι → Action (Option Transaction)) (table₀ : Table)

/-- What a call still has to do. -/
def Stage.Does (part : Part) (p : Action (Option Transaction)) : Stage → Prop
  | .fresh => Starts reference part p
  | .missing => ∃ metadata, part.record = some metadata ∧ Inserts reference metadata (Goes reference part) p
  | .conflicted => part.record ≠ none ∧ Finds reference (fun _ => Goes reference part) p
  | .recorded => part.record ≠ none ∧ Goes reference part p
  | .read txn => ∃ write, part.write = some write ∧ Writes write txn p
  | .ended => Ends p

/-- There is a row. -/
def Recorded (s : Parallel ι) : Prop := ∃ row, s.table.row? reference = some row

/-- What a call knows of the table, when `log` lists the calls that have written, in their order. -/
def Stage.Knows (s : Parallel ι) (log : List ι) (i : ι) : Stage → Prop
  | .fresh => i ∉ log ∧ s.threads i = actions i
  | .missing => i ∉ log
  | .conflicted | .recorded => i ∉ log ∧ Recorded reference s
  | .read txn => i ∉ log ∧ txn.reference = reference ∧ ∃ row, s.table.row? reference = some row ∧ row.id = txn.id
  | .ended => i ∈ log ∨ (parts i).record = none ∧ table₀.row? reference = none

structure Threads (s : Parallel ι) (log : List ι) : Prop where
  stage : ∀ i, ∃ stage : Stage, stage.Does reference (parts i) (s.threads i) ∧
    stage.Knows reference parts actions table₀ s log i
  nodup : log.Nodup
  wrote : ∀ i ∈ log, (parts i).write ≠ none ∧ Recorded reference s
  creator : ∀ i, s.creator = some i → (parts i).record ≠ none ∧ table₀.row? reference = none ∧ Recorded reference s
  initial : (∃ row, table₀.row? reference = some row) → Recorded reference s
  unrecorded : s.creator = none → table₀.row? reference = none → s.table.row? reference = none

/-- What a statement does to the row and to the log. -/
inductive Change (s s' : Parallel ι) (i : ι) (statement : Statement) (log : List ι) : List ι → Prop
  | nothing (table : s'.table = s.table) (creator : s'.creator = s.creator) : Change s s' i statement log log
  | created {metadata : Option String} (none : s.table.row? reference = none) (creator : s'.creator = some i)
      (record : (parts i).record = some metadata)
      (outcome : s'.table.outcome reference = some (TransactionStatus.pending.asStr, metadata)) :
      Change s s' i statement log log
  | wrote {write : TransactionStatus × Option String} {txn row : Transaction} {later : DateTime}
      (part : (parts i).write = some write) (update : statement = .update (txn.marked write.1 write.2 later))
      (own : txn.reference = reference) (row_eq : s.table.row? reference = some row) (creator : s'.creator = s.creator)
      (fresh : i ∉ log) (outcome : s'.table.outcome reference = some (write.1.asStr, write.2.or txn.metadata)) :
      Change s s' i statement log (log ++ [i])

variable {reference parts actions table₀} {s s' : Parallel ι} {log log' : List ι} {i : ι} {stage : Stage}

/-- The row stays, under its id. -/
def Stays (reference : String) (s s' : Parallel ι) : Prop :=
  ∀ row, s.table.row? reference = some row → ∃ row', s'.table.row? reference = some row' ∧ row'.id = row.id

theorem Recorded.stays (h : Recorded reference s) (stays : Stays reference s s') : Recorded reference s' := by
  obtain ⟨row, hrow⟩ := h
  obtain ⟨row', hrow', -⟩ := stays row hrow
  exact ⟨row', hrow'⟩

theorem Stage.Knows.frame (h : stage.Knows reference parts actions table₀ s log i) (stays : Stays reference s s')
    (hlog : i ∈ log' ↔ i ∈ log) (hthread : s'.threads i = s.threads i) :
    stage.Knows reference parts actions table₀ s' log' i := by
  cases stage with
  | fresh => exact ⟨fun hmem => h.1 (hlog.mp hmem), hthread.trans h.2⟩
  | missing => exact fun hmem => h (hlog.mp hmem)
  | conflicted | recorded => exact ⟨fun hmem => h.1 (hlog.mp hmem), h.2.stays stays⟩
  | read txn =>
    obtain ⟨hfresh, hown, row, hrow, hid⟩ := h
    obtain ⟨row', hrow', hid'⟩ := stays row hrow
    exact ⟨fun hmem => hfresh (hlog.mp hmem), hown, row', hrow', hid'.trans hid⟩
  | ended => exact h.imp_left hlog.mpr

variable [DecidableEq ι]

/-- The threads go on when one of them reaches another stage. -/
theorem Threads.next {statement : Statement} {p : Action (Option Transaction)} (threads : Threads reference parts actions table₀ s log)
    (stage : Stage) (change : Change reference parts s s' i statement log log') (hthreads : s'.threads = Function.update s.threads i p)
    (stays : Stays reference s s') (hlog : ∀ j, j ≠ i → (j ∈ log' ↔ j ∈ log))
    (does : stage.Does reference (parts i) p) (knows : stage.Knows reference parts actions table₀ s' log' i) :
    Threads reference parts actions table₀ s' log' where
  stage j := by
    rw [hthreads]
    by_cases hj : j = i
    · subst hj
      rw [Function.update_self]
      exact ⟨stage, does, knows⟩
    · obtain ⟨stage, does, knows⟩ := threads.stage j
      rw [Function.update_of_ne hj]
      refine ⟨stage, does, knows.frame stays (hlog j hj) ?_⟩
      rw [hthreads, Function.update_of_ne hj]
  nodup := by
    cases change with
    | nothing | created => exact threads.nodup
    | wrote _ _ _ _ _ fresh =>
      exact List.nodup_append'.mpr ⟨threads.nodup, List.nodup_singleton i, List.disjoint_singleton.mpr fresh⟩
  wrote j hj := by
    cases change with
    | nothing | created => exact ⟨(threads.wrote j hj).1, (threads.wrote j hj).2.stays stays⟩
    | wrote part update own row_eq =>
      refine ⟨?_, (show Recorded reference s from ⟨_, row_eq⟩).stays stays⟩
      rcases List.mem_append.mp hj with hj | hj
      · exact (threads.wrote j hj).1
      · rw [List.mem_singleton.mp hj, part]
        nofun
  creator j hj := by
    have old : s'.creator = s.creator → (parts j).record ≠ none ∧ table₀.row? reference = none ∧ Recorded reference s' := by
      intro hcreator
      obtain ⟨hrecord, hnone, hrecorded⟩ := threads.creator j (hcreator ▸ hj)
      exact ⟨hrecord, hnone, hrecorded.stays stays⟩
    cases change with
    | nothing _ creator => exact old creator
    | wrote _ _ _ _ creator => exact old creator
    | created none creator record outcome =>
      cases creator.symm.trans hj
      refine ⟨by rw [record]; nofun, ?_, ?_⟩
      · rw [Option.eq_none_iff_forall_ne_some]
        intro row hrow
        obtain ⟨row', hrow'⟩ := threads.initial ⟨row, hrow⟩
        cases none.symm.trans hrow'
      · obtain ⟨row, hrow, -⟩ := Option.map_eq_some_iff.mp outcome
        exact ⟨row, hrow⟩
  initial h := (threads.initial h).stays stays
  unrecorded hcreator hnone := by
    cases change with
    | nothing table creator => rw [table]; exact threads.unrecorded (creator ▸ hcreator) hnone
    | created _ creator => cases creator.symm.trans hcreator
    | wrote _ _ _ row_eq creator => cases (threads.unrecorded (creator ▸ hcreator) hnone).symm.trans row_eq

/-- The threads go on without a change of the table. -/
theorem Threads.quiet {statement : Statement} {rest : statement.Answer → Action (Option Transaction)}
    (threads : Threads reference parts actions table₀ s log) (stage : Stage) (table : (statement.exec s.table).1 = s.table)
    (refused : statement.inserts (statement.exec s.table).2 = false)
    (does : stage.Does reference (parts i) (rest (statement.exec s.table).2))
    (knows : stage.Knows reference parts actions table₀ (s.next i statement rest) log i) :
    ∃ log', Threads reference parts actions table₀ (s.next i statement rest) log' ∧
      Change reference parts s (s.next i statement rest) i statement log log' := by
  have change : Change reference parts s (s.next i statement rest) i statement log log :=
    .nothing table (by rw [Parallel.next, refused]; rfl)
  refine ⟨log, threads.next stage change rfl (fun row hrow => ⟨row, ?_, rfl⟩) (fun _ _ => Iff.rfl) does knows, change⟩
  rw [← hrow, ← table]
  rfl

/-- A call looks for its row. -/
theorem Threads.find {found : Transaction → Action (Option Transaction) → Prop}
    {missing : Action (Option Transaction) → Prop} {statement : Statement}
    {rest : statement.Answer → Action (Option Transaction)} (threads : Threads reference parts actions table₀ s log)
    (finds : FindsOr reference found missing (.call statement rest)) (fresh : i ∉ log)
    (onFound : ∀ row p, found row p → row.reference = reference → ∃ stage : Stage, stage.Does reference (parts i) p ∧
      (stage = .recorded ∨ stage = .read row))
    (onMissing : ∀ p, missing p → s.table.row? reference = none → ∃ stage : Stage, stage.Does reference (parts i) p ∧
      (stage = .missing ∨ stage = .ended ∧ (parts i).record = none)) :
    ∃ log', Threads reference parts actions table₀ (s.next i statement rest) log' ∧
      Change reference parts s (s.next i statement rest) i statement log log' := by
  obtain ⟨_, heq, hfound, hmissing⟩ := finds
  cases heq
  cases hrow : s.table.row? reference with
  | some row =>
    have hanswer : (Statement.exec s.table (.find reference)).2 = .ok (some row) := congrArg Except.ok hrow
    obtain ⟨stage, does, hstage⟩ := onFound row _ (hfound row) (row?_eq_some.mp hrow).2
    refine threads.quiet stage rfl rfl (by rwa [hanswer]) ?_
    rcases hstage with rfl | rfl
    · exact ⟨fresh, row, hrow⟩
    · exact ⟨fresh, (row?_eq_some.mp hrow).2, row, hrow, rfl⟩
  | none =>
    have hanswer : (Statement.exec s.table (.find reference)).2 = .ok none := congrArg Except.ok hrow
    obtain ⟨stage, does, hstage⟩ := onMissing _ hmissing hrow
    refine threads.quiet stage rfl rfl (by rwa [hanswer]) ?_
    rcases hstage with rfl | ⟨rfl, hrecord⟩
    · exact fresh
    · refine .inr ⟨hrecord, Option.eq_none_iff_forall_ne_some.mpr fun row hrow₀ => ?_⟩
      obtain ⟨row', hrow'⟩ := threads.initial ⟨row, hrow₀⟩
      cases hrow.symm.trans hrow'

/-- A call records its row, or finds another in its way. -/
theorem Threads.insert {metadata : Option String} {statement : Statement}
    {rest : statement.Answer → Action (Option Transaction)} (threads : Threads reference parts actions table₀ s log)
    (inserts : Inserts reference metadata (Goes reference (parts i)) (.call statement rest)) (fresh : i ∉ log)
    (record : (parts i).record = some metadata) :
    ∃ log', Threads reference parts actions table₀ (s.next i statement rest) log' ∧
      Change reference parts s (s.next i statement rest) i statement log log' := by
  obtain ⟨id, name, amountMinor, currency, now, rest, heq, hrecorded, hconflict⟩ := inserts
  cases heq
  have some_record : (parts i).record ≠ none := by rw [record]; nofun
  cases hrow : s.table.row? reference with
  | some row =>
    have hexec : Statement.exec s.table (.insert (pendingRow id reference name amountMinor currency metadata now)) =
        (s.table, .error uniqueViolation) := insert_taken hrow
    refine threads.quiet .conflicted (by rw [hexec]) (by rw [hexec]; rfl) ⟨some_record, by rw [hexec]; exact hconflict⟩ ?_
    refine ⟨fresh, row, ?_⟩
    rw [Parallel.next, hexec]
    exact hrow
  | none =>
    obtain ⟨after, hinsert, hsets⟩ := insert_new (show s.table.row?
      (pendingRow id reference name amountMinor currency metadata now).reference = none from hrow)
    have hexec : Statement.exec s.table (.insert (pendingRow id reference name amountMinor currency metadata now)) =
        (after, .ok { pendingRow id reference name amountMinor currency metadata now with id := s.table.nextId }) := hinsert
    have change : Change reference parts s
        (s.next i (.insert (pendingRow id reference name amountMinor currency metadata now)) rest) i
        (.insert (pendingRow id reference name amountMinor currency metadata now)) log log := by
      refine .created hrow ?_ record ?_
      · rw [Parallel.next, hexec]
        rfl
      · rw [Parallel.next, hexec]
        exact outcome_sets hsets rfl
    refine ⟨log, threads.next .recorded change rfl ?_ (fun _ _ => Iff.rfl) ⟨some_record, ?_⟩ ⟨fresh, ?_⟩, change⟩
    · intro row hrow'
      cases hrow.symm.trans hrow'
    · rw [hexec]
      exact hrecorded _
    · refine ⟨{ pendingRow id reference name amountMinor currency metadata now with id := s.table.nextId }, ?_⟩
      rw [Parallel.next, hexec]
      exact hsets.self

/-- A call writes the row. -/
theorem Threads.update {write : TransactionStatus × Option String} {txn row : Transaction} {statement : Statement}
    {rest : statement.Answer → Action (Option Transaction)} (threads : Threads reference parts actions table₀ s log)
    (writes : Writes write txn (.call statement rest)) (part : (parts i).write = some write) (fresh : i ∉ log)
    (own : txn.reference = reference) (hrow : s.table.row? reference = some row) (hid : row.id = txn.id) :
    ∃ log', Threads reference parts actions table₀ (s.next i statement rest) log' ∧
      Change reference parts s (s.next i statement rest) i statement log log' := by
  obtain ⟨later, rest, heq, hends⟩ := writes
  cases heq
  obtain ⟨after, hupdate, hsets⟩ := update_row (show s.table.row? (txn.marked write.1 write.2 later).reference = some row
    from own ▸ hrow) hid
  have hexec : Statement.exec s.table (.update (txn.marked write.1 write.2 later)) = (after, .ok ()) := hupdate
  have change : Change reference parts s (s.next i (.update (txn.marked write.1 write.2 later)) rest) i
      (.update (txn.marked write.1 write.2 later)) log (log ++ [i]) := by
    refine .wrote part rfl own hrow rfl fresh ?_
    rw [Parallel.next, hexec]
    exact outcome_sets hsets own
  refine ⟨log ++ [i], threads.next .ended change rfl ?_ ?_ ?_ (.inl (by simp)), change⟩
  · intro row' hrow'
    cases hrow.symm.trans hrow'
    refine ⟨txn.marked write.1 write.2 later, ?_, hid.symm⟩
    rw [Parallel.next, hexec, ← own]
    exact hsets.self
  · intro j hj
    rw [List.mem_append, List.mem_singleton, or_iff_left hj]
  · rw [hexec]
    exact hends

/-- Every statement takes its call to a next stage. -/
theorem Threads.step {statement : Statement} {rest : statement.Answer → Action (Option Transaction)}
    (threads : Threads reference parts actions table₀ s log) (call : s.threads i = .call statement rest) :
    ∃ log', Threads reference parts actions table₀ (s.next i statement rest) log' ∧
      Change reference parts s (s.next i statement rest) i statement log log' := by
  obtain ⟨stage, does, knows⟩ := threads.stage i
  rw [call] at does
  cases stage with
  | fresh =>
    have fresh := knows.1
    have starts : Starts reference (parts i) (.call statement rest) := does
    unfold Starts at starts
    split at starts
    · obtain ⟨e, he⟩ := starts
      cases he
    · rename_i write hrecord hwrite
      refine threads.find starts fresh (fun row p hp hkey => ⟨.read row, ⟨write, hwrite, hp⟩, .inr rfl⟩) fun p hp _ =>
        ⟨.ended, hp, .inr ⟨rfl, hrecord⟩⟩
    · rename_i metadata hrecord hwrite
      exact threads.insert starts fresh hrecord
    · rename_i metadata write hrecord hwrite
      refine threads.find starts fresh (fun row p hp hkey => ⟨.recorded, ⟨by rw [hrecord]; nofun, hp⟩, .inl rfl⟩) fun p hp _ =>
        ⟨.missing, ⟨metadata, hrecord, hp⟩, .inl rfl⟩
  | missing =>
    obtain ⟨metadata, hrecord, inserts⟩ := does
    exact threads.insert inserts knows hrecord
  | conflicted =>
    obtain ⟨fresh, row, hrow⟩ := knows
    refine threads.find does.2 fresh (fun row p hp hkey => ⟨.recorded, ⟨does.1, hp⟩, .inl rfl⟩) fun p hp hnone => ?_
    cases hnone.symm.trans hrow
  | recorded =>
    obtain ⟨fresh, row, hrow⟩ := knows
    obtain ⟨hrecord, does⟩ := does
    unfold Goes at does
    split at does
    · obtain ⟨found, hfound⟩ := does
      cases hfound
    · rename_i write hwrite
      refine threads.find does fresh (fun row p hp hkey => ⟨.read row, ⟨write, hwrite, hp⟩, .inr rfl⟩) fun p hp hnone => ?_
      cases hnone.symm.trans hrow
  | read txn =>
    obtain ⟨fresh, own, row, hrow, hid⟩ := knows
    obtain ⟨write, part, writes⟩ := does
    exact threads.update writes part fresh own hrow hid
  | ended =>
    obtain ⟨found, hfound⟩ := does
    cases hfound

end Interleaving

/-! ### Parts in order -/

section Parts
variable {ι : Type} {parts : ι → Part} {log order : List ι} {i : ι} {o : Option Outcome}

def writtenAll (parts : ι → Part) (log : List ι) (o : Option Outcome) : Option Outcome :=
  log.foldl (fun o i => (parts i).written o) o

def effectAll (parts : ι → Part) (order : List ι) (o : Option Outcome) : Option Outcome :=
  order.foldl (fun o i => (parts i).effect o) o

/-- The parts of calls: one that writes after it has recorded passes no metadata. -/
def Real (part : Part) : Prop :=
  ∀ metadata status written, part.record = some metadata → part.write = some (status, written) →
    metadata = none ∧ written = none

theorem real_delivery (settles : Bool) :
    Real (if settles then ⟨some none, some (.success, none)⟩ else ⟨none, none⟩) := by
  intro metadata status written hrecord hwrite
  cases settles with
  | true =>
    cases hrecord
    cases hwrite
    exact ⟨rfl, rfl⟩
  | false => cases hrecord

theorem real_part (provider : Provider) (parsers : Parsers) (call : Call) : Real (call.part provider parsers) := by
  cases call with
  | initiate => exact fun _ _ _ _ hwrite => nomatch hwrite
  | mark => exact fun _ _ _ hrecord => nomatch hrecord
  | paystack | bachs => exact real_delivery _

/-- The part passes no metadata. -/
def Plain (part : Part) : Prop := ∀ status metadata, part.write = some (status, metadata) → metadata = none

theorem written_some (part : Part) (v : Outcome) :
    ∃ v', part.written (some v) = some v' ∧ (v'.2 = none ↔ v.2 = none ∧ Plain part) := by
  unfold Part.written Plain
  cases part.write with
  | none => exact ⟨v, rfl, by simp⟩
  | some write =>
    obtain ⟨status, metadata⟩ := write
    refine ⟨_, rfl, ?_⟩
    cases metadata <;> simp

@[simp] theorem writtenAll_cons (i : ι) (log : List ι) (o : Option Outcome) :
    writtenAll parts (i :: log) o = writtenAll parts log ((parts i).written o) := rfl

@[simp] theorem effectAll_cons (i : ι) (order : List ι) (o : Option Outcome) :
    effectAll parts (i :: order) o = effectAll parts order ((parts i).effect o) := rfl

theorem writtenAll_append (log log' : List ι) (o : Option Outcome) :
    writtenAll parts (log ++ log') o = writtenAll parts log' (writtenAll parts log o) := List.foldl_append

theorem effectAll_append (order order' : List ι) (o : Option Outcome) :
    effectAll parts (order ++ order') o = effectAll parts order' (effectAll parts order o) := List.foldl_append

theorem writtenAll_some (parts : ι → Part) (log : List ι) (v : Outcome) :
    ∃ v', writtenAll parts log (some v) = some v' ∧ (v'.2 = none ↔ v.2 = none ∧ ∀ i ∈ log, Plain (parts i)) := by
  induction log generalizing v with
  | nil => exact ⟨v, rfl, by simp⟩
  | cons i log ih =>
    obtain ⟨v₁, h₁, hplain₁⟩ := written_some (parts i) v
    obtain ⟨v₂, h₂, hplain₂⟩ := ih v₁
    refine ⟨v₂, ?_, ?_⟩
    · rw [writtenAll_cons, h₁]
      exact h₂
    · rw [hplain₂, hplain₁, List.forall_mem_cons, and_assoc]

theorem effect_some (part : Part) (v : Outcome) : part.effect (some v) = part.written (some v) := by
  rw [Part.effect, Option.some_or]

theorem effectAll_some (log : List ι) (v : Outcome) : effectAll parts log (some v) = writtenAll parts log (some v) := by
  induction log generalizing v with
  | nil => rfl
  | cons i log ih =>
    obtain ⟨v', h, -⟩ := written_some (parts i) v
    rw [effectAll_cons, writtenAll_cons, effect_some, h]
    exact ih v'

theorem effectAll_id (h : ∀ i ∈ order, (parts i).effect o = o) : effectAll parts order o = o := by
  induction order with
  | nil => rfl
  | cons i order ih =>
    obtain ⟨hi, h⟩ := List.forall_mem_cons.mp h
    rw [effectAll_cons, hi]
    exact ih h

/-- A part without metadata leaves no metadata. -/
theorem effect_plain {part : Part} (plain : Plain part) (real : Real part) (writes : part.write ≠ none)
    (ho : ∀ v, o = some v → v.2 = none) {v : Outcome} (hv : part.effect o = some v) : v.2 = none := by
  cases o with
  | some v₀ =>
    rw [effect_some] at hv
    obtain ⟨v', h, hnone⟩ := written_some part v₀
    cases h.symm.trans hv
    exact hnone.mpr ⟨ho v₀ rfl, plain⟩
  | none =>
    unfold Part.effect at hv
    cases hrecord : part.record with
    | none =>
      rw [hrecord] at hv
      unfold Part.written at hv
      split at hv <;> cases hv
    | some metadata =>
      obtain ⟨⟨status, written⟩, hwrite⟩ := Option.ne_none_iff_exists'.mp writes
      rw [hrecord, Option.none_or, Option.map_some, (real metadata status written hrecord hwrite).1] at hv
      obtain ⟨v', h, hnone⟩ := written_some part (TransactionStatus.pending.asStr, none)
      cases h.symm.trans hv
      exact hnone.mpr ⟨rfl, plain⟩

theorem effectAll_plain (plain : ∀ i ∈ order, Plain (parts i) ∧ Real (parts i) ∧ (parts i).write ≠ none)
    (ho : ∀ v, o = some v → v.2 = none) {v : Outcome} (hv : effectAll parts order o = some v) : v.2 = none := by
  induction order generalizing o with
  | nil => exact ho v hv
  | cons i order ih =>
    obtain ⟨⟨hplain, hreal, hwrites⟩, plain⟩ := List.forall_mem_cons.mp plain
    exact ih plain (fun v hv => effect_plain hplain hreal hwrites ho hv) hv

end Parts

/-! ### Orders -/

section Orders
variable {ι : Type} {reference : String} {parts : ι → Part} {actions : ι → Action (Option Transaction)} {table₀ : Table}
  {s s' : Parallel ι} {log log' : List ι} {i : ι}

/-- The outcome before the first write. -/
def origin (reference : String) (parts : ι → Part) (table₀ : Table) (s : Parallel ι) : Option Outcome :=
  (table₀.outcome reference).or (s.creator.bind fun i => (parts i).record.map fun metadata =>
    (TransactionStatus.pending.asStr, metadata))

/-- The row is what the writes made of it, and a call that writes the row that it has recorded finds it without
    metadata. -/
structure Ordered (reference : String) (parts : ι → Part) (table₀ : Table) (s : Parallel ι) (log : List ι) : Prop where
  outcome : s.table.outcome reference = writtenAll parts log (origin reference parts table₀ s)
  plain : ∀ i ∈ log, s.creator = some i → ∃ earlier later, log = earlier ++ i :: later ∧ ∀ j ∈ earlier, Plain (parts j)

theorem Recorded.outcome (h : Recorded reference s) : ∃ v, s.table.outcome reference = some v := by
  obtain ⟨row, hrow⟩ := h
  exact ⟨_, outcome_row hrow⟩

theorem ordered_change [DecidableEq ι] {statement : Statement} (threads : Threads reference parts actions table₀ s log)
    (ordered : Ordered reference parts table₀ s log) (change : Change reference parts s s' i statement log log')
    (real : ∀ i, Real (parts i)) (keeps : KeepsMetadata parts s i statement) :
    Ordered reference parts table₀ s' log' := by
  cases change with
  | nothing table creator =>
    have horigin : origin reference parts table₀ s' = origin reference parts table₀ s := by rw [origin, creator]; rfl
    refine ⟨?_, ?_⟩
    · rw [table, horigin]
      exact ordered.outcome
    · rw [creator]
      exact ordered.plain
  | @created metadata none creator record outcome =>
    have unrecorded : ¬ Recorded reference s := by
      rintro ⟨row, hrow⟩
      cases none.symm.trans hrow
    have hlog : log = [] := List.eq_nil_iff_forall_not_mem.mpr fun j hj => unrecorded (threads.wrote j hj).2
    have hnone : table₀.row? reference = Option.none :=
      Option.eq_none_iff_forall_ne_some.mpr fun row hrow => unrecorded (threads.initial ⟨row, hrow⟩)
    subst hlog
    refine ⟨?_, nofun⟩
    rw [outcome, origin, outcome_eq_none.mpr hnone, creator, Option.bind_some, record]
    rfl
  | @wrote write txn row later part update own row_eq creator fresh outcome =>
    have horigin : origin reference parts table₀ s' = origin reference parts table₀ s := by rw [origin, creator]; rfl
    have hbefore := ordered.outcome
    rw [outcome_row row_eq] at hbefore
    subst update
    have kept : write.2 = Option.none → row.metadata = txn.metadata ∧ (s.creator = some i → row.metadata = Option.none) := by
      intro hnone
      have h := keeps write.1 row (by rw [part, ← hnone]) (own ▸ row_eq)
      rwa [Transaction.marked, hnone, Option.none_or] at h
    refine ⟨?_, ?_⟩
    · rw [outcome, horigin, writtenAll_append, ← hbefore, writtenAll_cons, Part.written, part]
      cases hmetadata : write.2 with
      | none =>
        simp only [Option.map_some, hmetadata, (kept hmetadata).1]
        rfl
      | some metadata =>
        simp only [Option.map_some, hmetadata, Option.some_or]
        rfl
    · intro j hj hcreator
      rw [creator] at hcreator
      rcases List.mem_append.mp hj with hj | hj
      · obtain ⟨earlier, after, rfl, hplain⟩ := ordered.plain j hj hcreator
        exact ⟨earlier, after ++ [i], by simp, hplain⟩
      · obtain rfl := List.mem_singleton.mp hj
        refine ⟨log, [], rfl, ?_⟩
        obtain ⟨hrecord, hnone, -⟩ := threads.creator j hcreator
        obtain ⟨metadata, hrecord⟩ := Option.ne_none_iff_exists'.mp hrecord
        have hplain := (kept (real j metadata write.1 write.2 hrecord part).2).2 hcreator
        rw [origin, outcome_eq_none.mpr hnone, hcreator, Option.bind_some, hrecord] at hbefore
        obtain ⟨v', h, hnone'⟩ := writtenAll_some parts log (TransactionStatus.pending.asStr, metadata)
        cases h.symm.trans hbefore.symm
        exact (hnone'.mp hplain).2

/-- Where a call stands that has nothing left to do. -/
theorem Threads.finished (threads : Threads reference parts actions table₀ s log)
    {result : Except PaymentError (Option Transaction)} (h : s.threads i = .done result) :
    i ∈ log ∨ i ∉ log ∧ ((parts i).write = none ∧ ((parts i).record ≠ none → Recorded reference s) ∨
      (parts i).record = none ∧ table₀.row? reference = none) := by
  by_cases hlog : i ∈ log
  · exact .inl hlog
  · refine .inr ⟨hlog, ?_⟩
    obtain ⟨stage, does, knows⟩ := threads.stage i
    rw [h] at does
    cases stage with
    | fresh =>
      have starts : Starts reference (parts i) (.done result) := does
      unfold Starts at starts
      split at starts
      · rename_i hrecord hwrite
        exact .inl ⟨hwrite, fun hne => absurd hrecord hne⟩
      · obtain ⟨_, heq, _⟩ := starts
        cases heq
      · obtain ⟨_, _, _, _, _, _, heq, _⟩ := starts
        cases heq
      · obtain ⟨_, heq, _⟩ := starts
        cases heq
    | missing =>
      obtain ⟨_, _, _, _, _, _, _, _, heq, _⟩ := does
      cases heq
    | conflicted =>
      obtain ⟨_, _, heq, _⟩ := does
      cases heq
    | recorded =>
      obtain ⟨_, does⟩ := does
      unfold Goes at does
      split at does
      · rename_i hwrite
        exact .inl ⟨hwrite, fun _ => knows.2⟩
      · obtain ⟨_, heq, _⟩ := does
        cases heq
    | read txn =>
      obtain ⟨_, _, _, _, heq, _⟩ := does
      cases heq
    | ended => exact .inr (knows.resolve_left hlog)

/-- A call that fails would have failed alone. -/
theorem Threads.failed (threads : Threads reference parts actions table₀ s log) {e : PaymentError}
    (h : s.threads i = .done (.error e)) : actions i = .done (.error e) := by
  obtain ⟨stage, does, knows⟩ := threads.stage i
  rw [h] at does
  cases stage with
  | fresh => exact knows.2.symm.trans h
  | missing =>
    obtain ⟨_, _, _, _, _, _, _, _, heq, _⟩ := does
    cases heq
  | conflicted =>
    obtain ⟨_, _, heq, _⟩ := does
    cases heq
  | recorded =>
    obtain ⟨_, does⟩ := does
    unfold Goes at does
    split at does
    · obtain ⟨_, heq⟩ := does
      cases heq
    · obtain ⟨_, heq, _⟩ := does
      cases heq
  | read txn =>
    obtain ⟨_, _, _, _, heq, _⟩ := does
    cases heq
  | ended =>
    obtain ⟨_, heq⟩ := does
    cases heq

theorem effect_absent {part : Part} (h : part.record = none) : part.effect none = none := by
  rw [Part.effect, h, Option.map_none, Option.none_or, Part.written]
  split <;> rfl

theorem effect_unwritten {part : Part} (h : part.write = none) {o : Option Outcome} (ho : part.record = none ∨ ∃ v, o = some v) :
    part.effect o = o := by
  rw [Part.effect, Part.written, h]
  rcases ho with hrecord | ⟨v, rfl⟩
  · rw [hrecord, Option.map_none, Option.or_none]
  · rfl

/-- The calls before the first write, the writes in their order, and the rest do together what the interleaving
    did. -/
theorem effectAll_order (threads : Threads reference parts actions table₀ s log)
    (ordered : Ordered reference parts table₀ s log) (real : ∀ i, Real (parts i)) {creators : List ι}
    (hcreators : ∀ i, i ∈ creators ↔ s.creator = some i ∧ i ∉ log) (single : creators.length ≤ 1)
    (unwritten : ∀ i, s.creator = some i → i ∉ log → (parts i).write = none) :
    effectAll parts (creators ++ log) (table₀.outcome reference) = s.table.outcome reference := by
  rw [ordered.outcome, origin]
  cases hcreator : s.creator with
  | none =>
    have hnil : creators = [] := List.eq_nil_iff_forall_not_mem.mpr fun i hi => by
      have h := ((hcreators i).mp hi).1
      rw [hcreator] at h
      cases h
    rw [hnil, List.nil_append, Option.bind_none, Option.or_none]
    cases houtcome : table₀.outcome reference with
    | some v => exact effectAll_some log v
    | none =>
      have hlog : log = [] := List.eq_nil_iff_forall_not_mem.mpr fun i hi => by
        obtain ⟨row, hrow⟩ := (threads.wrote i hi).2
        cases (threads.unrecorded hcreator (outcome_eq_none.mp houtcome)).symm.trans hrow
      rw [hlog]
      rfl
  | some i =>
    obtain ⟨hrecord, hnone, -⟩ := threads.creator i hcreator
    obtain ⟨metadata, hrecord⟩ := Option.ne_none_iff_exists'.mp hrecord
    rw [outcome_eq_none.mpr hnone, Option.none_or, Option.bind_some, hrecord, Option.map_some]
    by_cases hi : i ∈ log
    · have hnil : creators = [] := List.eq_nil_iff_forall_not_mem.mpr fun j hj => by
        obtain ⟨hj, hmem⟩ := (hcreators j).mp hj
        cases hcreator.symm.trans hj
        exact hmem hi
      obtain ⟨⟨status, written⟩, hwrite⟩ := Option.ne_none_iff_exists'.mp (threads.wrote i hi).1
      obtain ⟨rfl, rfl⟩ := real i metadata status written hrecord hwrite
      obtain ⟨earlier, later, hlog, hplain⟩ := ordered.plain i hi hcreator
      have hearlier : ∀ j ∈ earlier, Plain (parts j) ∧ Real (parts j) ∧ (parts j).write ≠ none := by
        intro j hj
        exact ⟨hplain j hj, real j, (threads.wrote j (hlog ▸ List.mem_append_left _ hj)).1⟩
      -- Whatever the earlier calls left, the row has no metadata, and this call marks it.
      have heffect : ∀ o : Option Outcome, (∀ v, o = some v → v.2 = none) →
          (parts i).effect o = some (status.asStr, none) := by
        intro o ho
        rw [Part.effect, hrecord, Part.written, hwrite]
        cases o with
        | none => rfl
        | some v =>
          simp only [Option.some_or, Option.map_some, Option.none_or, ho v rfl]
      obtain ⟨v, hv, hvnone⟩ := writtenAll_some parts earlier (TransactionStatus.pending.asStr, none)
      have hvplain := hvnone.mpr ⟨rfl, hplain⟩
      have hwritten : (parts i).written (some v) = some (status.asStr, none) := by
        rw [Part.written, hwrite]
        simp only [Option.map_some, Option.none_or, hvplain]
      rw [hnil, List.nil_append, hlog, effectAll_append, effectAll_cons, writtenAll_append, writtenAll_cons, hv, hwritten,
        heffect _ fun v => effectAll_plain (o := none) hearlier nofun]
      exact effectAll_some later _
    · have hone : creators = [i] := by
        have hmem := (hcreators i).mpr ⟨hcreator, hi⟩
        match creators, single, hmem with
        | [j], _, hmem => rw [List.mem_singleton.mp hmem]
      rw [hone, List.singleton_append, effectAll_cons, Part.effect, hrecord, Option.none_or, Option.map_some, Part.written,
        unwritten i hcreator hi]
      exact effectAll_some log _

/-- The calls that found no row, the call that recorded it, the writes in their order, and the calls that found the
    row: one after the other they do what the interleaving did. -/
theorem exists_order [Fintype ι] [DecidableEq ι] (threads : Threads reference parts actions table₀ s log)
    (ordered : Ordered reference parts table₀ s log) (real : ∀ i, Real (parts i))
    (ended : ∀ i, ∃ result, s.threads i = .done result) :
    ∃ order : List ι, order.Nodup ∧ (∀ i, i ∈ order) ∧
      effectAll parts order (table₀.outcome reference) = s.table.outcome reference := by
  have finished := fun i => threads.finished (ended i).choose_spec
  have unwritten : ∀ i, s.creator = some i → i ∉ log → (parts i).write = none := by
    intro i hcreator hi
    rcases finished i with hlog | ⟨-, ⟨h, -⟩ | ⟨hnone, -⟩⟩
    · exact absurd hlog hi
    · exact h
    · exact absurd hnone (threads.creator i hcreator).1
  let rest := Finset.univ.toList.filter (· ∉ log)
  let first := rest.filter fun i => (parts i).write ≠ none
  let creators := s.creator.toList.filter (· ∉ log)
  let last := rest.filter fun i => (parts i).write = none ∧ s.creator ≠ some i
  have nodup_rest : rest.Nodup := (Finset.nodup_toList _).filter _
  have mem_first : ∀ i, i ∈ first ↔ i ∉ log ∧ (parts i).write ≠ none := fun i => by simp [first, rest, and_comm]
  have mem_creators : ∀ i, i ∈ creators ↔ s.creator = some i ∧ i ∉ log := fun i => by simp [creators]
  have mem_last : ∀ i, i ∈ last ↔ i ∉ log ∧ (parts i).write = none ∧ s.creator ≠ some i := fun i => by
    simp [last, rest, and_comm]
  have single : creators.length ≤ 1 := by
    refine Nat.le_trans (List.length_filter_le _ _) ?_
    cases s.creator <;> simp
  have nodup_creators : creators.Nodup := by
    refine List.Nodup.filter _ ?_
    cases s.creator <;> simp
  refine ⟨first ++ (creators ++ log) ++ last, ?_, ?_, ?_⟩
  · refine List.nodup_append'.mpr ⟨List.nodup_append'.mpr ⟨nodup_rest.filter _, List.nodup_append'.mpr
      ⟨nodup_creators, threads.nodup, fun i hi hlog => ((mem_creators i).mp hi).2 hlog⟩, fun i hi hmem => ?_⟩,
      nodup_rest.filter _, fun i hmem hi => ?_⟩
    · obtain ⟨hlog, hwrite⟩ := (mem_first i).mp hi
      rcases List.mem_append.mp hmem with hcreator | h
      · exact hwrite (unwritten i ((mem_creators i).mp hcreator).1 hlog)
      · exact hlog h
    · obtain ⟨hlog, hwrite, hcreator⟩ := (mem_last i).mp hi
      rcases List.mem_append.mp hmem with hfirst | hmem
      · exact ((mem_first i).mp hfirst).2 hwrite
      · rcases List.mem_append.mp hmem with h | h
        · exact hcreator ((mem_creators i).mp h).1
        · exact hlog h
  · intro i
    rw [List.mem_append, List.mem_append, List.mem_append, mem_first, mem_creators, mem_last]
    by_cases hlog : i ∈ log
    · exact .inl (.inr (.inr hlog))
    · by_cases hwrite : (parts i).write = none
      · by_cases hcreator : s.creator = some i
        · exact .inl (.inr (.inl ⟨hcreator, hlog⟩))
        · exact .inr ⟨hlog, hwrite, hcreator⟩
      · exact .inl (.inl ⟨hlog, hwrite⟩)
  · have hfirst : effectAll parts first (table₀.outcome reference) = table₀.outcome reference := by
      refine effectAll_id fun i hi => ?_
      obtain ⟨hlog, hwrite⟩ := (mem_first i).mp hi
      rcases finished i with h | ⟨-, ⟨h, -⟩ | ⟨hrecord, hnone⟩⟩
      · exact absurd h hlog
      · exact absurd h hwrite
      · rw [outcome_eq_none.mpr hnone]
        exact effect_absent hrecord
    have hlast : effectAll parts last (s.table.outcome reference) = s.table.outcome reference := by
      refine effectAll_id fun i hi => ?_
      obtain ⟨hlog, hwrite, -⟩ := (mem_last i).mp hi
      refine effect_unwritten hwrite ?_
      rcases finished i with h | ⟨-, ⟨-, h⟩ | ⟨hrecord, -⟩⟩
      · exact absurd h hlog
      · by_cases hrecord : (parts i).record = none
        · exact .inl hrecord
        · exact .inr (h hrecord).outcome
      · exact .inl hrecord
    rw [effectAll_append, effectAll_append, hfirst, effectAll_order threads ordered real mem_creators single unwritten, hlast]

end Orders

/-! ### Interleavings -/

section Results
variable {ι : Type} {provider : Provider} {parsers : Parsers} {reference : String} {calls : ι → Call}
  {table₀ : Table} {meets : Parallel ι → ι → Statement → Prop} {s : Parallel ι}

theorem threads_start (concerns : ∀ i, (calls i).Concerns provider parsers reference) :
    Threads reference (fun i => (calls i).part provider parsers) (fun i => (calls i).action provider parsers) table₀
      ⟨table₀, fun i => (calls i).action provider parsers, none⟩ [] where
  stage i := ⟨.fresh, action_starts (concerns i), List.not_mem_nil, rfl⟩
  nodup := .nil
  wrote _ hi := absurd hi List.not_mem_nil
  creator _ h := absurd h (Option.some_ne_none _).symm
  initial := id
  unrecorded _ h := h

theorem sequentially_outcome (concerns : ∀ i, (calls i).Concerns provider parsers reference) (order : List ι)
    (table : Table) :
    (sequentially (fun i => (calls i).action provider parsers) order table).outcome reference =
      effectAll (fun i => (calls i).part provider parsers) order (table.outcome reference) := by
  induction order generalizing table with
  | nil => rfl
  | cons i order ih =>
    rw [effectAll_cons, ← starts_run (action_starts (concerns i))]
    exact ih _

theorem length_filter_row {table : Table} {row : Transaction} (h : table.row? reference = some row) :
    (table.rows.filter (·.reference == reference)).length = 1 := by
  obtain ⟨hmem, hkey⟩ := row?_eq_some.mp h
  have hnodup : (table.rows.filter (·.reference == reference)).Nodup :=
    (List.Nodup.of_map _ table.references).filter _
  have hall : ∀ row' ∈ table.rows.filter (·.reference == reference), row' = row := by
    intro row' hrow'
    obtain ⟨hmem', hkey'⟩ := List.mem_filter.mp hrow'
    exact List.inj_on_of_nodup_map table.references hmem' hmem ((beq_iff_eq.mp hkey').trans hkey.symm)
  have hone : row ∈ table.rows.filter (·.reference == reference) := List.mem_filter.mpr ⟨hmem, beq_iff_eq.mpr hkey⟩
  have hsame : table.rows.filter (·.reference == reference) = [row] := by
    refine List.perm_singleton.mp ?_
    exact (List.perm_ext_iff_of_nodup hnodup (List.nodup_singleton row)).mpr fun row' =>
      ⟨fun h => List.mem_singleton.mpr (hall row' h), fun h => List.mem_singleton.mp h ▸ hone⟩
  rw [hsame]
  rfl

variable [DecidableEq ι]

/-- Every interleaving keeps the stages; and the order, when the updates keep the metadata. -/
theorem interleaves_threads (concerns : ∀ i, (calls i).Concerns provider parsers reference)
    (run : Interleaves (fun i => (calls i).action provider parsers) table₀ meets s) :
    ∃ log, Threads reference (fun i => (calls i).part provider parsers) (fun i => (calls i).action provider parsers)
        table₀ s log ∧
      ((∀ s i statement, meets s i statement → KeepsMetadata (fun i => (calls i).part provider parsers) s i statement) →
        Ordered reference (fun i => (calls i).part provider parsers) table₀ s log) := by
  induction run with
  | start =>
    refine ⟨[], threads_start concerns, fun _ => ⟨?_, nofun⟩⟩
    rw [origin, Option.bind_none, Option.or_none]
    rfl
  | step earlier call ok ih =>
    obtain ⟨log, threads, ordered⟩ := ih
    obtain ⟨log', threads', change⟩ := threads.step call
    exact ⟨log', threads', fun keeps =>
      ordered_change threads (ordered keeps) change (fun i => real_part provider parsers (calls i)) (keeps _ _ _ ok)⟩

/-- Calls for one reference that run side by side and have all ended: there is one row if any of them records one,
    none of them fails that would not fail alone, and if the updates keep the metadata, then the row has the status and
    the metadata that the calls give it one after the other in some order. -/
theorem concurrent_calls [Fintype ι] (concerns : ∀ i, (calls i).Concerns provider parsers reference)
    (run : Interleaves (fun i => (calls i).action provider parsers) table₀ meets s)
    (ended : ∀ i, ∃ result, s.threads i = .done result) :
    ((∃ i, ((calls i).part provider parsers).record ≠ none) →
      (s.table.rows.filter (·.reference == reference)).length = 1) ∧
    (∀ i e, s.threads i = .done (.error e) → (calls i).action provider parsers = .done (.error e)) ∧
    ((∀ s i statement, meets s i statement → KeepsMetadata (fun i => (calls i).part provider parsers) s i statement) →
      ∃ order : List ι, order.Nodup ∧ (∀ i, i ∈ order) ∧
        (sequentially (fun i => (calls i).action provider parsers) order table₀).outcome reference =
          s.table.outcome reference) := by
  obtain ⟨log, threads, ordered⟩ := interleaves_threads concerns run
  have finished := fun i => threads.finished (ended i).choose_spec
  have recorded : ∀ i, ((calls i).part provider parsers).record ≠ none → Recorded reference s := by
    intro i hrecord
    rcases finished i with hlog | ⟨-, ⟨-, h⟩ | ⟨hnone, -⟩⟩
    · exact (threads.wrote i hlog).2
    · exact h hrecord
    · exact absurd hnone hrecord
  refine ⟨?_, fun i e => threads.failed, fun keeps => ?_⟩
  · rintro ⟨i, hrecord⟩
    obtain ⟨row, hrow⟩ := recorded i hrecord
    exact length_filter_row hrow
  · obtain ⟨order, hnodup, hcomplete, heffect⟩ := exists_order threads (ordered keeps)
      (fun i => real_part provider parsers (calls i)) ended
    exact ⟨order, hnodup, hcomplete, (sequentially_outcome concerns order table₀).trans heffect⟩

end Results

/-! ### Two updates of one order -/

/-- A table with the order. -/
def orderTable : Table := (Table.empty.insert (pendingRow 0 "order-1" "paystack" 5000 "NGN" none ⟨0⟩)).1

/-- One call declines the order and says why; the other confirms it. -/
def declineOrConfirm : Bool → Call
  | true => .mark "order-1" .failed (some "\"card_declined\"") ⟨1⟩
  | false => .mark "order-1" .success none ⟨2⟩

theorem declineOrConfirm_concerns (i : Bool) : (declineOrConfirm i).Concerns signedProvider chargeParsers "order-1" := by
  cases i <;> rfl

/-- The reason is lost when both calls have read the row before either writes it. -/
theorem reason_lost : ∃ s : Parallel Bool,
    Interleaves (fun i => (declineOrConfirm i).action signedProvider chargeParsers) orderTable (fun _ _ _ => True) s ∧
    (∀ i, ∃ result, s.threads i = .done result) ∧
    ∀ order : List Bool, order.Nodup → (∀ i, i ∈ order) →
      (sequentially (fun i => (declineOrConfirm i).action signedProvider chargeParsers) order orderTable).outcome "order-1" ≠
        s.table.outcome "order-1" := by
  refine ⟨_, .step (i := false) (.step (i := true) (.step (i := false) (.step (i := true) .start rfl trivial) rfl trivial)
    rfl trivial) rfl trivial, ?_, ?_⟩
  · intro i
    cases i <;> exact ⟨_, rfl⟩
  · intro order hnodup hcomplete
    have hperm : order.Perm [true, false] :=
      (List.perm_ext_iff_of_nodup hnodup (by decide)).mpr fun i => by cases i <;> simp [hcomplete]
    obtain ⟨a, b, rfl⟩ := List.length_eq_two.mp hperm.length_eq
    cases a <;> cases b
    · exact absurd hnodup (by decide)
    · decide
    · decide
    · exact absurd hnodup (by decide)

/-- The updates keep the metadata when the second call reads the row that the first has written. -/
theorem reason_read : ∃ s : Parallel Bool,
    Interleaves (fun i => (declineOrConfirm i).action signedProvider chargeParsers) orderTable
      (KeepsMetadata fun i => (declineOrConfirm i).part signedProvider chargeParsers) s ∧
    (∀ i, ∃ result, s.threads i = .done result) ∧ s.table.outcome "order-1" = some ("success", some "\"card_declined\"") := by
  refine ⟨_, .step (i := false) (.step (i := false) (.step (i := true) (.step (i := true) .start rfl trivial) rfl ?_)
    rfl trivial) rfl ?_, ?_, rfl⟩
  · intro status row hwrite
    cases hwrite
  · intro status row _ hrow
    cases hrow
    exact ⟨rfl, nofun⟩
  · intro i
    cases i <;> exact ⟨_, rfl⟩

theorem reason_kept : ∃ s : Parallel Bool, s.table.outcome "order-1" = some ("success", some "\"card_declined\"") ∧
    ∃ order : List Bool, order.Nodup ∧ (∀ i, i ∈ order) ∧
      (sequentially (fun i => (declineOrConfirm i).action signedProvider chargeParsers) order orderTable).outcome "order-1" =
        s.table.outcome "order-1" := by
  obtain ⟨s, run, ended, houtcome⟩ := reason_read
  exact ⟨s, houtcome, (concurrent_calls declineOrConfirm_concerns run ended).2.2 fun _ _ _ => id⟩

end Djangors.Payments
