import Djangors.Theorems.TransactionRows

/-! # Webhooks and the rows they confirm

A delivery marks the row of its reference as successful without comparing the charge or the status, so a
row says what the provider has confirmed only where the two agree, and a repeated delivery undoes a
refund. -/

namespace Djangors.Payments
open Table

section Deliveries
variable {provider : Provider} {parsers : Parsers} {call : Call} {before after : Table} {reference : String}
  {charge : Charge} {result : Except PaymentError (Option Transaction)}

/-- A delivery is refused, or goes on to `confirmCharge`. -/
theorem delivery_action (delivery : call.isDelivery = true) :
    (call.settles provider parsers = none ∧ ∃ e, call.action provider parsers = .done (.error e)) ∨
      ∃ reference charge now later, call.settles provider parsers = some (reference, charge) ∧
        call.action provider parsers =
          (confirmCharge reference charge.provider charge.amountMinor charge.currency now later).andThen
            fun txn => .done (.ok (some txn)) := by
  cases call with
  | initiate | mark => cases delivery
  | paystack rawBody signature now later =>
    simp only [Call.settles, Call.action, handlePaystackWebhook]
    cases provider.verifyWebhookSignature rawBody signature with
    | false => exact .inl ⟨rfl, _, rfl⟩
    | true =>
      cases parsers.paystack rawBody with
      | error e => exact .inl ⟨rfl, _, rfl⟩
      | ok event =>
        by_cases hsuccess : event.event = "charge.success" ∧ event.status = "success"
        · have hhandled : ¬ (event.event ≠ "charge.success" ∨ event.status ≠ "success") := by simp [hsuccess]
          refine .inr ⟨event.reference, ⟨"paystack", event.amount, "NGN"⟩, now, later, if_pos hsuccess, ?_⟩
          exact congrArg (Action.andThen · _) (if_neg hhandled)
        · have hunhandled : event.event ≠ "charge.success" ∨ event.status ≠ "success" := by
            rwa [← not_and_or]
          exact .inl ⟨if_neg hsuccess, _, congrArg (Action.andThen · _) (if_pos hunhandled)⟩
  | bachs rawBody timestamp signature now later =>
    simp only [Call.settles, Call.action, handleBachsWebhook]
    cases provider.verifyWebhookSignatureWithTimestamp rawBody timestamp signature with
    | false => exact .inl ⟨rfl, _, rfl⟩
    | true =>
      cases parsers.bachs rawBody with
      | error e => exact .inl ⟨rfl, _, rfl⟩
      | ok event =>
        by_cases hsuccess : event.eventType = "collection.succeeded"
        · simp only [if_pos hsuccess, if_neg (not_not.mpr hsuccess)]
          cases event.reference.or event.checkoutId with
          | none => exact .inl ⟨rfl, _, rfl⟩
          | some reference =>
            cases event.currency with
            | none => exact .inl ⟨rfl, _, rfl⟩
            | some currency =>
              cases event.amount with
              | none => exact .inl ⟨rfl, _, rfl⟩
              | some amountStr =>
                cases hamount : decimalStringToMinor amountStr currency with
                | error e => exact .inl ⟨by simp [hamount, Except.toOption], e, by simp [hamount]; rfl⟩
                | ok amountMinor =>
                  exact .inr ⟨reference, ⟨"bachs", amountMinor, currency⟩, now, later,
                    by simp [hamount, Except.toOption], by simp [hamount]⟩
        · simp only [if_neg hsuccess, if_pos hsuccess]
          refine .inl ⟨?_, _, rfl⟩
          split <;> rfl

theorem runs_some {action : Action Transaction}
    (h : (action.andThen fun txn => .done (.ok (some txn))).Runs exec before after result) :
    ∃ result', action.Runs exec before after result' ∧ ∀ e, result' = .error e → result = .error e := by
  rcases runs_andThen h with ⟨e, haction, rfl⟩ | ⟨u, txn, haction, h⟩
  · refine ⟨_, haction, ?_⟩
    rintro _ ⟨⟩
    rfl
  · obtain ⟨rfl, rfl⟩ := Program.runs_done.mp h
    exact ⟨_, haction, nofun⟩

/-- What a delivery does: it leaves the table, records the charge, or marks the row of the charge. -/
theorem runs_delivery (delivery : call.isDelivery = true)
    (h : (call.action provider parsers).Runs exec before after result) :
    ((∃ e, result = .error e) ∧ after = before) ∨
      ∃ reference charge, call.settles provider parsers = some (reference, charge) ∧
        ((before.row? reference = none ∧ (∃ e, result = .error e) ∧ ∃ now, Sets before after
            (pendingRow before.nextId reference charge.provider charge.amountMinor charge.currency none now)) ∨
          ∃ row later, Sets before after (row.marked .success none later) ∧ row.reference = reference ∧
            (before.row? reference = some row ∨ before.row? reference = none ∧ row.charge = charge)) := by
  rcases delivery_action delivery with ⟨_, e, haction⟩ | ⟨reference, charge, now, later, hsettles, haction⟩
  · rw [haction] at h
    obtain ⟨rfl, rfl⟩ := Program.runs_done.mp h
    exact .inl ⟨⟨e, rfl⟩, rfl⟩
  · rw [haction] at h
    obtain ⟨result', hconfirm, herror⟩ := runs_some h
    rcases runs_confirm hconfirm with ⟨⟨e, rfl⟩, rfl | ⟨hnone, hsets⟩⟩ | ⟨row, hrow, hsets⟩
    · exact .inl ⟨⟨e, herror e rfl⟩, rfl⟩
    · exact .inr ⟨reference, charge, hsettles, .inl ⟨hnone, ⟨e, herror e rfl⟩, now, hsets⟩⟩
    · refine .inr ⟨reference, charge, hsettles, .inr ⟨row, later, hsets, ?_⟩⟩
      rcases hrow with hrow | ⟨hnone, rfl⟩
      · exact ⟨(row?_eq_some.mp hrow).2, .inl hrow⟩
      · exact ⟨rfl, .inr ⟨hnone, rfl⟩⟩

/-- Without failures, a delivery for a row that is there marks it. -/
theorem delivery_runs {row : Transaction} (delivery : call.isDelivery = true)
    (hsettles : call.settles provider parsers = some (reference, charge)) (hrow : before.row? reference = some row) :
    ∃ after result later, (call.action provider parsers).Runs exec before after result ∧
      Sets before after (row.marked .success none later) := by
  rcases delivery_action delivery with ⟨hnone, _⟩ | ⟨_, _, now, later, hsettles', haction⟩
  · cases hsettles.symm.trans hnone
  · cases hsettles.symm.trans hsettles'
    obtain ⟨after, hconfirm, hsets⟩ : ∃ after, (confirmCharge reference charge.provider charge.amountMinor
        charge.currency now later).Runs exec before after (.ok (row.marked .success none later)) ∧
      Sets before after (row.marked .success none later) := confirm_runs hrow
    refine ⟨after, .ok (some (row.marked .success none later)), later, ?_, hsets⟩
    rw [haction]
    exact Program.runs_bind.mpr ⟨after, _, hconfirm, Program.runs_done.mpr ⟨rfl, rfl⟩⟩

theorem runs_initiate {reference name currency : String} {amountMinor : Int} {metadata : Option String} {now : DateTime}
    (h : (Call.action provider parsers (.initiate reference name amountMinor currency metadata now)).Runs exec before after
      result) :
    after = before ∨ before.row? reference = none ∧
      Sets before after (pendingRow before.nextId reference name amountMinor currency metadata now) := by
  obtain ⟨_, hrecord, _⟩ := runs_some h
  rcases runs_record hrecord with ⟨rfl, _⟩ | hsets
  · exact .inl rfl
  · exact .inr hsets

end Deliveries

/-! ### One order -/

/-- A provider that accepts the signature "signed". -/
def signedProvider : Provider := ⟨fun _ signature => signature == "signed", fun _ _ signature => signature == "signed"⟩

/-- The body of a successful charge of "order-1". -/
def chargeBody (amount : String) : List UInt8 :=
  ("\x7b\"event\":\"charge.success\",\"data\":\x7b\"reference\":\"order-1\",\"amount\":" ++ amount ++
    ",\"currency\":\"NGN\",\"status\":\"success\"\x7d\x7d").toUTF8.data.toList

/-- What `serde_json` reads in the bodies of two charges. -/
def chargeParsers : Parsers where
  paystack rawBody :=
    if rawBody = chargeBody "5000" then .ok ⟨"charge.success", "success", "order-1", 5000⟩
    else if rawBody = chargeBody "100" then .ok ⟨"charge.success", "success", "order-1", 100⟩
    else .error "expected value at line 1 column 1"
  bachs _ := .error "missing field"
  paystackCurrency _ := some "NGN"

def order : Call := .initiate "order-1" "paystack" 5000 "NGN" none ⟨0⟩

def paid (amount : String) (now : Int) : Call := .paystack (chargeBody amount) "signed" ⟨now⟩ ⟨now⟩

/-! ### What webhooks confirm -/

section Confirmed
variable (provider : Provider) (parsers : Parsers)

/-- Every row that is marked as successful carries the charge of an event for its reference. -/
def Confirmed (past : List (Call × Except PaymentError (Option Transaction))) (table : Table) : Prop :=
  ∀ reference row, table.row? reference = some row → row.status = TransactionStatus.success.asStr →
    ∃ entry ∈ past, entry.1.confirms provider parsers = some (reference, row.charge)

/-- The event of a delivery marks no row with another charge. -/
def SparesOthers (call : Call) (before after : Table) : Prop :=
  ∀ reference charge row row', call.confirms provider parsers = some (reference, charge) →
    before.row? reference = some row → row.charge ≠ charge → row.status ≠ TransactionStatus.success.asStr →
      after.row? reference = some row' → row'.status ≠ TransactionStatus.success.asStr

/-- The event of a delivery carries the charge of the row for its reference; and if there is none, it is in
    the currency that the handler records. -/
def Agrees (call : Call) (table : Table) : Prop :=
  ∀ reference charge, call.confirms provider parsers = some (reference, charge) →
    (∀ row, table.row? reference = some row → row.charge = charge) ∧
      (table.row? reference = none → call.settles provider parsers = some (reference, charge))

variable {provider parsers}

theorem success_ne_pending : TransactionStatus.pending.asStr ≠ TransactionStatus.success.asStr := by decide

theorem confirms_of_settles {call : Call} {reference : String} {charge : Charge}
    (h : call.settles provider parsers = some (reference, charge)) :
    ∃ confirmed, call.confirms provider parsers = some (reference, confirmed) := by
  rw [Call.confirms, h]
  exact ⟨_, rfl⟩

theorem settles_of_confirms {call : Call} {reference : String} {charge : Charge}
    (h : call.confirms provider parsers = some (reference, charge)) :
    ∃ settled, call.settles provider parsers = some (reference, settled) := by
  obtain ⟨⟨_, settled⟩, hsettles, heq⟩ := Option.map_eq_some_iff.mp h
  cases heq
  exact ⟨settled, hsettles⟩

/-- One call keeps `Confirmed` when its event agrees with the row. -/
theorem confirmed_next {past : List (Call × Except PaymentError (Option Transaction))} {before after : Table} {call : Call}
    {result : Except PaymentError (Option Transaction)} (confirmed : Confirmed provider parsers past before)
    (notMark : call.isMark = false) (agrees : Agrees provider parsers call before)
    (run : (call.action provider parsers).Runs exec before after result) :
    Confirmed provider parsers (past ++ [(call, result)]) after := by
  have kept : Confirmed provider parsers (past ++ [(call, result)]) before := by
    intro reference row hrow hsuccess
    obtain ⟨entry, hentry, hconfirms⟩ := confirmed reference row hrow hsuccess
    exact ⟨entry, List.mem_append_left _ hentry, hconfirms⟩
  -- A row that is put in keeps the rest, so only its own charge is to be confirmed.
  have set : ∀ {new : Transaction}, Sets before after new →
      (new.status = TransactionStatus.success.asStr →
        call.confirms provider parsers = some (new.reference, new.charge)) →
      Confirmed provider parsers (past ++ [(call, result)]) after := by
    intro new hsets hnew reference row hrow hsuccess
    rw [hsets] at hrow
    split at hrow
    · rename_i heq
      cases hrow
      exact ⟨(call, result), List.mem_append_right _ (List.mem_singleton_self _), heq ▸ hnew hsuccess⟩
    · exact kept reference row hrow hsuccess
  by_cases hdelivery : call.isDelivery = true
  · rcases runs_delivery hdelivery run with ⟨_, rfl⟩ | ⟨reference, charge, hsettles, h⟩
    · exact kept
    · obtain ⟨charge', hconfirms⟩ := confirms_of_settles hsettles
      obtain ⟨hrow', hnew⟩ := agrees reference charge' hconfirms
      rcases h with ⟨_, _, now, hsets⟩ | ⟨row, later, hsets, rfl, hrow | ⟨hnone, rfl⟩⟩
      · exact set hsets fun h => absurd h success_ne_pending
      · refine set hsets fun _ => ?_
        rw [hconfirms, ← hrow' row hrow]
        rfl
      · refine set hsets fun _ => ?_
        cases hsettles.symm.trans (hnew hnone)
        rw [hconfirms]
        rfl
  · cases call with
    | initiate reference name amountMinor currency metadata now =>
      rcases runs_initiate run with rfl | ⟨_, hsets⟩
      · exact kept
      · exact set hsets fun h => absurd h success_ne_pending
    | mark => cases notMark
    | paystack | bachs => exact absurd rfl hdelivery

/-- In a run of initiations and deliveries that agree with the rows they meet, all that is marked as
    successful is confirmed; and a delivery spares a row with another charge exactly when there is none. -/
theorem webhooks_confirm {past : List (Call × Except PaymentError (Option Transaction))} {table : Table}
    (history : History provider parsers (fun call table => call.isMark = false ∧ Agrees provider parsers call table)
      past table) :
    Confirmed provider parsers past table ∧
      ∀ call, call.isDelivery = true →
        ((∀ after result, (call.action provider parsers).Runs exec table after result →
            SparesOthers provider parsers call table after) ↔
          ∀ reference charge row, call.confirms provider parsers = some (reference, charge) →
            table.row? reference = some row → row.charge = charge ∨ row.status = TransactionStatus.success.asStr) := by
  constructor
  · induction history with
    | start => exact fun _ _ hrow => nomatch hrow
    | next _ ok run ih => exact confirmed_next ih ok.1 ok.2 run
  · intro call hdelivery
    constructor
    · intro spares reference charge row hconfirms hrow
      by_contra hnot
      obtain ⟨hcharge, hstatus⟩ := not_or.mp hnot
      obtain ⟨settled, hsettles⟩ := settles_of_confirms hconfirms
      obtain ⟨after, result, later, run, hsets⟩ := delivery_runs hdelivery hsettles hrow
      have hafter := hsets.self
      rw [show (row.marked .success none later).reference = reference from (row?_eq_some.mp hrow).2] at hafter
      exact spares after result run reference charge row _ hconfirms hrow hcharge hstatus hafter rfl
    · intro agree after result _ reference charge row row' hconfirms hrow hcharge hstatus
      exact absurd (agree reference charge row hconfirms hrow) (not_or.mpr ⟨hcharge, hstatus⟩)

/-- An order of 5000 that is paid with 5000. -/
theorem order_confirmed : ∃ past table, Confirmed signedProvider chargeParsers past table ∧
    past.map (·.1) = [order, paid "5000" 1] ∧ (table.row? "order-1").map (·.status) = some "success" := by
  have ordered : Agrees signedProvider chargeParsers order empty := fun _ _ h => nomatch (show none = some _ from h)
  have agrees : ∀ table : Table, (∀ row, table.row? "order-1" = some row → row.charge = ⟨"paystack", 5000, "NGN"⟩) →
      Agrees signedProvider chargeParsers (paid "5000" 1) table := by
    intro table hrow reference charge hconfirms
    have hpaid : (paid "5000" 1).confirms signedProvider chargeParsers =
        some ("order-1", ⟨"paystack", 5000, "NGN"⟩) := by decide
    cases hpaid.symm.trans hconfirms
    exact ⟨hrow, fun _ => by decide⟩
  refine ⟨[(order, _), (paid "5000" 1, _)], _,
    (webhooks_confirm (.next (.next .start ⟨rfl, ordered⟩ ⟨[], rfl⟩) ⟨rfl, agrees _ ?_⟩ ⟨[], rfl⟩)).1, rfl, rfl⟩
  rintro _ ⟨⟩
  rfl

/-- An order of 5000 that is paid with 100 is marked as successful. -/
theorem order_underpaid : ∃ past table, History signedProvider chargeParsers (fun call _ => call.isMark = false) past
    table ∧ past.map (·.1) = [order, paid "100" 1] ∧ ¬ Confirmed signedProvider chargeParsers past table := by
  refine ⟨[(order, _), (paid "100" 1, _)], _, .next (.next .start rfl ⟨[], rfl⟩) rfl ⟨[], rfl⟩, rfl, fun h => ?_⟩
  obtain ⟨entry, hentry, hconfirms⟩ := h "order-1" _ rfl (by decide)
  revert entry
  decide

end Confirmed

/-! ### Repeated deliveries -/

section Redelivery
variable {provider : Provider} {parsers : Parsers}

/-- A row without the time of its update. -/
def Transaction.content (txn : Transaction) : Transaction := { txn with updatedAt := txn.createdAt }

theorem content_marked (row : Transaction) (later : DateTime) :
    (row.marked .success none later).content = row.content ↔ row.status = TransactionStatus.success.asStr := by
  constructor
  · intro h
    exact (congrArg Transaction.status h).symm
  · intro h
    rw [Transaction.content, Transaction.marked, Transaction.content, h, Option.none_or]

@[simp] theorem settles_again (call : Call) (now later : DateTime) :
    (call.again now later).settles provider parsers = call.settles provider parsers := by
  cases call <;> rfl

@[simp] theorem isDelivery_again (call : Call) (now later : DateTime) :
    (call.again now later).isDelivery = call.isDelivery := by
  cases call <;> rfl

/-- Every call leaves the table or puts in one row. -/
theorem runs_sets {call : Call} {before after : Table} {result : Except PaymentError (Option Transaction)}
    (run : (call.action provider parsers).Runs exec before after result) :
    after = before ∨ ∃ row, Sets before after row := by
  by_cases hdelivery : call.isDelivery = true
  · rcases runs_delivery hdelivery run with ⟨_, rfl⟩ | ⟨_, _, _, ⟨_, _, _, hsets⟩ | ⟨_, _, hsets, _⟩⟩
    · exact .inl rfl
    · exact .inr ⟨_, hsets⟩
    · exact .inr ⟨_, hsets⟩
  · cases call with
    | initiate =>
      rcases runs_initiate run with rfl | ⟨_, hsets⟩
      · exact .inl rfl
      · exact .inr ⟨_, hsets⟩
    | mark =>
      rcases runs_mark run with ⟨rfl, _⟩ | ⟨_, _, hsets⟩
      · exact .inl rfl
      · exact .inr ⟨_, hsets⟩
    | paystack | bachs => exact absurd rfl hdelivery

/-- No call takes a row away. -/
theorem runs_keeps {call : Call} {before after : Table} {result : Except PaymentError (Option Transaction)}
    (run : (call.action provider parsers).Runs exec before after result) {reference : String}
    (hrow : (before.row? reference).isSome) : (after.row? reference).isSome := by
  rcases runs_sets run with rfl | ⟨row, hsets⟩
  · exact hrow
  · rw [hsets]
    split
    · rfl
    · exact hrow

/-- A delivery that succeeded has left a row for its reference. -/
theorem delivered_row {meets : Call → Table → Prop} {past : List (Call × Except PaymentError (Option Transaction))}
    {table : Table} (history : History provider parsers meets past table) {call : Call} {found : Option Transaction}
    (delivered : (call, .ok found) ∈ past) (delivery : call.isDelivery = true) :
    ∃ reference charge, call.settles provider parsers = some (reference, charge) ∧ (table.row? reference).isSome := by
  induction history with
  | start => cases delivered
  | next _ _ run ih =>
    rcases List.mem_append.mp delivered with hpast | hlast
    · obtain ⟨reference, charge, hsettles, hrow⟩ := ih hpast
      exact ⟨reference, charge, hsettles, runs_keeps run hrow⟩
    · cases List.mem_singleton.mp hlast
      rcases runs_delivery delivery run with ⟨⟨_, h⟩, _⟩ | ⟨reference, charge, hsettles, ⟨_, ⟨_, h⟩, _⟩ | ⟨row, _, hsets, rfl, _⟩⟩
      · cases h
      · cases h
      · exact ⟨_, charge, hsettles, Option.isSome_iff_exists.mpr ⟨_, hsets.self⟩⟩

/-- A delivery that was processed changes nothing but times when it comes again, exactly when its row is
    still marked as successful. -/
theorem redelivery_harmless_iff {past : List (Call × Except PaymentError (Option Transaction))} {table : Table}
    (history : History provider parsers (fun _ _ => True) past table) {call : Call} {found : Option Transaction}
    (delivered : (call, .ok found) ∈ past) (delivery : call.isDelivery = true) :
    (∀ now later after result, ((call.again now later).action provider parsers).Runs exec table after result →
        ∀ reference, (after.row? reference).map (·.content) = (table.row? reference).map (·.content)) ↔
      ∀ reference charge row, call.settles provider parsers = some (reference, charge) →
        table.row? reference = some row → row.status = TransactionStatus.success.asStr := by
  have delivery' : ∀ now later, (call.again now later).isDelivery = true := fun _ _ => by rwa [isDelivery_again]
  constructor
  · intro harmless reference charge row hsettles hrow
    obtain ⟨after, result, later, run, hsets⟩ :=
      delivery_runs (delivery' ⟨0⟩ ⟨0⟩) ((settles_again call _ _).trans hsettles) hrow
    have hafter := hsets.self
    rw [show (row.marked .success none later).reference = reference from (row?_eq_some.mp hrow).2] at hafter
    have h := harmless _ _ after result run reference
    rw [hafter, hrow] at h
    exact (content_marked row later).mp (Option.some.inj h)
  · intro success now later after result run key
    obtain ⟨reference, charge, hsettles, hsome⟩ := delivered_row history delivered delivery
    rcases runs_delivery (delivery' now later) run with ⟨_, rfl⟩ | ⟨reference', charge', hsettles', h⟩
    · rfl
    · cases hsettles.symm.trans ((settles_again call _ _).symm.trans hsettles')
      rcases h with ⟨hnone, _⟩ | ⟨row, later', hsets, rfl, hrow | ⟨hnone, _⟩⟩
      · rw [hnone] at hsome
        cases hsome
      · rw [hsets]
        split
        · rename_i heq
          rw [heq, show table.row? (row.marked .success none later').reference = some row from hrow]
          exact congrArg some ((content_marked row later').mpr (success _ charge row hsettles hrow))
        · rfl
      · rw [hnone] at hsome
        cases hsome

/-- An order of 5000 and a delivery for it. -/
theorem order_paid : ∃ past table found row, History signedProvider chargeParsers (fun _ _ => True) past table ∧
    past.map (·.1) = [order, paid "5000" 1] ∧ (paid "5000" 1, .ok found) ∈ past ∧
    table.row? "order-1" = some row ∧ row.status = "success" :=
  ⟨[(order, _), (paid "5000" 1, _)], _, _, _, .next (.next .start trivial ⟨[], rfl⟩) trivial ⟨[], rfl⟩, rfl,
    List.mem_cons_of_mem _ (List.mem_singleton_self _), rfl, rfl⟩

/-- A paid order whose delivery comes once more. -/
theorem order_redelivered : ∃ past table, History signedProvider chargeParsers (fun _ _ => True) past table ∧
    past.map (·.1) = [order, paid "5000" 1] ∧
    ∀ now later after result, (((paid "5000" 1).again now later).action signedProvider chargeParsers).Runs exec table
      after result → ∀ reference, (after.row? reference).map (·.content) = (table.row? reference).map (·.content) := by
  obtain ⟨past, table, found, row, history, hpast, delivered, hrow, hstatus⟩ := order_paid
  refine ⟨past, table, history, hpast, (redelivery_harmless_iff history delivered rfl).mpr ?_⟩
  intro reference charge row' hsettles hrow'
  have hpaid : (paid "5000" 1).settles signedProvider chargeParsers =
      some ("order-1", ⟨"paystack", 5000, "NGN"⟩) := by decide
  cases hpaid.symm.trans hsettles
  cases hrow.symm.trans hrow'
  exact hstatus

/-- A paid order that is refunded goes back to success when the same delivery comes again. -/
theorem refund_undone : ∃ past table after found result,
    History signedProvider chargeParsers (fun _ _ => True) past table ∧
    past.map (·.1) = [order, paid "5000" 1, .mark "order-1" .refunded none ⟨2⟩] ∧ (paid "5000" 1, .ok found) ∈ past ∧
    (((paid "5000" 1).again ⟨3⟩ ⟨3⟩).action signedProvider chargeParsers).Runs exec table after result ∧
    (table.row? "order-1").map (·.status) = some "refunded" ∧
    (after.row? "order-1").map (·.status) = some "success" :=
  ⟨[(order, _), (paid "5000" 1, _), (.mark "order-1" .refunded none ⟨2⟩, _)], _, _, _, _,
    .next (.next (.next .start trivial ⟨[], rfl⟩) trivial ⟨[], rfl⟩) trivial ⟨[], rfl⟩, rfl,
    List.mem_cons_of_mem _ (List.mem_cons_self ..), ⟨[], rfl⟩, rfl, rfl⟩

end Redelivery

end Djangors.Payments
