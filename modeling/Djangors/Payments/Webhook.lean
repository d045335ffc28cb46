import Djangors.Lib.Text
import Djangors.Payments.Transaction

/-! # Webhooks

The webhook handlers of the two providers (`djangors-contrib-payments`, `transaction.rs` and
`bachs.rs`). -/

namespace Djangors.Payments

/-- What the handlers use of a payment provider. -/
structure Provider where
  verifyWebhookSignature : List UInt8 → String → Bool
  verifyWebhookSignatureWithTimestamp : List UInt8 → Option String → String → Bool

structure PaystackWebhookEvent where
  event : String
  status : String
  reference : String
  amount : Int
deriving DecidableEq, Repr

structure BachsWebhookEvent where
  eventType : String
  checkoutId : Option String
  reference : Option String
  amount : Option String
  currency : Option String
deriving DecidableEq, Repr

/-- What `serde_json` reads in a body. `PaystackWebhookEvent` has no field for the currency of the
    payload. -/
structure Parsers where
  paystack : List UInt8 → Except String PaystackWebhookEvent
  bachs : List UInt8 → Except String BachsWebhookEvent
  paystackCurrency : List UInt8 → Option String

/-! ### Amounts -/

/-- `currency_exponent` -/
def currencyExponent (currency : String) : Nat :=
  let upper := String.ofList (currency.toList.map Char.toUpper)
  if ["BIF", "CLP", "DJF", "GNF", "ISK", "JPY", "KMF", "KRW", "PYG", "RWF", "UGX", "VND", "VUV", "XAF", "XOF",
      "XPF"].contains upper then 0
  else if ["BHD", "IQD", "JOD", "KWD", "LYD", "OMR", "TND"].contains upper then 3
  else 2

/-- `parse::<i64>` of decimal digits -/
def parseDigits (digits : List Char) : Except String Int :=
  match Text.parseSigned (2 ^ 63) digits with
  | some i => .ok i
  | none => .error "number too large to fit in target type"

/-- `checked_mul` and `checked_add` stay below this. -/
def fitsI64 (i : Int) : Bool := -2 ^ 63 ≤ i && i < 2 ^ 63

/-- `decimal_string_to_minor` -/
def decimalStringToMinor (amount currency : String) : Except PaymentError Int := do
  if amount.isEmpty then .error (.unexpectedResponse "amount string is empty")
  let exponent := currencyExponent currency
  let (isNegative, rest) := match amount.toList with
    | '-' :: stripped => (true, stripped)
    | chars => (false, chars)
  let parts := rest.splitOn '.'
  if parts.length > 2 then .error (.unexpectedResponse ("malformed amount string: `" ++ amount ++ "`"))
  let integerStr := parts.headD []
  if integerStr.isEmpty || !integerStr.all Char.isDigit then
    .error (.unexpectedResponse ("malformed integer part: `" ++ amount ++ "`"))
  let integerVal ← (parseDigits integerStr).mapError fun e =>
    .unexpectedResponse ("failed to parse integer part in `" ++ amount ++ "`: " ++ e)
  let fracStr := parts.getD 1 []
  let fractionalVal ← if exponent = 0 then
      if !fracStr.isEmpty then
        .error (.unexpectedResponse ("currency `" ++ currency ++
          "` expects 0 decimal places, but got fractional part in `" ++ amount ++ "`"))
      else .ok 0
    else if !fracStr.all Char.isDigit then
      .error (.unexpectedResponse ("malformed fractional part: `" ++ amount ++ "`"))
    else if fracStr.length > exponent then
      .error (.unexpectedResponse ("fractional part of `" ++ amount ++ "` is longer than allowed exponent " ++
        toString exponent))
    else (parseDigits (fracStr ++ List.replicate (exponent - fracStr.length) '0')).mapError fun e =>
      .unexpectedResponse ("failed to parse fractional part in `" ++ amount ++ "`: " ++ e)
  let scaled := integerVal * 10 ^ exponent
  let combined := scaled + fractionalVal
  if fitsI64 scaled && fitsI64 combined then .ok (if isNegative then -combined else combined)
  else .error (.unexpectedResponse ("amount `" ++ amount ++ "` is too large to represent"))

/-! ### Handlers -/

/-- `.ok_or_else(…)?` of an updated row -/
def orDisappeared (between : String) (action : Action (Option Transaction)) : Action Transaction :=
  action.andThen fun
    | some txn => .done (.ok txn)
    | none => .done (.error (.unexpectedResponse ("transaction disappeared between " ++ between ++ " and update")))

/-- The end of both handlers: the charge is recorded if there is no row for its reference, and the row is
    marked as successful. -/
def confirmCharge (reference provider : String) (amountMinor : Int) (currency : String) (now later : DateTime) :
    Action Transaction :=
  (findByReference reference).andThen fun
    | some _ => orDisappeared "lookup" (markTransactionStatus reference .success none later)
    | none =>
      (recordChargeInitiated reference provider amountMinor currency none now).andThen fun _ =>
        orDisappeared "insert" (markTransactionStatus reference .success none later)

/-- `handle_paystack_webhook` -/
def handlePaystackWebhook (provider : Provider) (parsers : Parsers) (rawBody : List UInt8) (signature : String)
    (now later : DateTime) : Action Transaction :=
  if !provider.verifyWebhookSignature rawBody signature then .done (.error .invalidWebhookSignature)
  else
    match parsers.paystack rawBody with
    | .error e => .done (.error (.unexpectedResponse ("invalid webhook payload: " ++ e)))
    | .ok event =>
      if event.event ≠ "charge.success" ∨ event.status ≠ "success" then
        .done (.error (.unexpectedResponse
          ("unhandled webhook event `" ++ event.event ++ "` with status `" ++ event.status ++ "`")))
      else confirmCharge event.reference "paystack" event.amount "NGN" now later

/-- `handle_bachs_webhook` -/
def handleBachsWebhook (provider : Provider) (parsers : Parsers) (rawBody : List UInt8) (timestamp : Option String)
    (signature : String) (now later : DateTime) : Action Transaction :=
  if !provider.verifyWebhookSignatureWithTimestamp rawBody timestamp signature then .done (.error .invalidWebhookSignature)
  else
    match parsers.bachs rawBody with
    | .error e => .done (.error (.unexpectedResponse ("invalid webhook payload: " ++ e)))
    | .ok event =>
      if event.eventType ≠ "collection.succeeded" then
        .done (.error (.unexpectedResponse ("unhandled webhook event `" ++ event.eventType ++ "`")))
      else
        match event.reference.or event.checkoutId, event.currency, event.amount with
        | none, _, _ => .done (.error (.unexpectedResponse "missing reference/checkout_id in webhook data"))
        | some _, none, _ => .done (.error (.unexpectedResponse "missing `currency` in webhook data"))
        | some _, some _, none => .done (.error (.unexpectedResponse "missing `amount` in webhook data"))
        | some reference, some currency, some amountStr =>
          match decimalStringToMinor amountStr currency with
          | .error e => .done (.error e)
          | .ok amountMinor => confirmCharge reference "bachs" amountMinor currency now later

/-! ### Calls -/

/-- A call of the application or a delivery of a provider, with the times at which it reads the clock. -/
inductive Call where
  | initiate (reference provider : String) (amountMinor : Int) (currency : String) (metadata : Option String)
      (now : DateTime)
  | mark (reference : String) (status : TransactionStatus) (metadata : Option String) (now : DateTime)
  | paystack (rawBody : List UInt8) (signature : String) (now later : DateTime)
  | bachs (rawBody : List UInt8) (timestamp : Option String) (signature : String) (now later : DateTime)

/-- What a call runs; a row that is found is its result. -/
def Call.action (provider : Provider) (parsers : Parsers) : Call → Action (Option Transaction)
  | .initiate reference name amountMinor currency metadata now =>
    (recordChargeInitiated reference name amountMinor currency metadata now).andThen fun txn => .done (.ok (some txn))
  | .mark reference status metadata now => markTransactionStatus reference status metadata now
  | .paystack rawBody signature now later =>
    (handlePaystackWebhook provider parsers rawBody signature now later).andThen fun txn => .done (.ok (some txn))
  | .bachs rawBody timestamp signature now later =>
    (handleBachsWebhook provider parsers rawBody timestamp signature now later).andThen fun txn => .done (.ok (some txn))

/-- What a charge is: who collects how much of which currency. -/
structure Charge where
  provider : String
  amountMinor : Int
  currency : String
deriving DecidableEq, Repr

def Transaction.charge (txn : Transaction) : Charge := ⟨txn.provider, txn.amountMinor, txn.currency⟩

section Calls
variable (provider : Provider) (parsers : Parsers)

/-- The reference and the charge with which a delivery goes to `confirmCharge`: its signature verifies, and
    it is a success. -/
def Call.settles : Call → Option (String × Charge)
  | .initiate .. | .mark .. => none
  | .paystack rawBody signature _ _ =>
    match provider.verifyWebhookSignature rawBody signature, parsers.paystack rawBody with
    | true, .ok event =>
      if event.event = "charge.success" ∧ event.status = "success" then
        some (event.reference, ⟨"paystack", event.amount, "NGN"⟩)
      else none
    | _, _ => none
  | .bachs rawBody timestamp signature _ _ =>
    match provider.verifyWebhookSignatureWithTimestamp rawBody timestamp signature, parsers.bachs rawBody with
    | true, .ok event =>
      match event.reference.or event.checkoutId, event.currency, event.amount with
      | some reference, some currency, some amountStr =>
        if event.eventType = "collection.succeeded" then
          ((decimalStringToMinor amountStr currency).toOption).map fun amountMinor =>
            (reference, ⟨"bachs", amountMinor, currency⟩)
        else none
      | _, _, _ => none
    | _, _ => none

/-- The currency in the payload of a Paystack delivery. -/
def Call.payloadCurrency : Call → Option String
  | .paystack rawBody .. => parsers.paystackCurrency rawBody
  | _ => none

/-- The reference and the charge that a verified, successful event carries. -/
def Call.confirms (call : Call) : Option (String × Charge) :=
  (call.settles provider parsers).map fun (reference, charge) =>
    (reference, { charge with currency := (call.payloadCurrency parsers).getD charge.currency })

def Call.isDelivery : Call → Bool
  | .paystack .. | .bachs .. => true
  | _ => false

def Call.isMark : Call → Bool
  | .mark .. => true
  | _ => false

/-- The same delivery at another time. -/
def Call.again (now later : DateTime) : Call → Call
  | .paystack rawBody signature _ _ => .paystack rawBody signature now later
  | .bachs rawBody timestamp signature _ _ => .bachs rawBody timestamp signature now later
  | call => call

/-- The calls of a run with their results, and the table they leave. Each call meets a condition when it
    starts; any statement may fail. -/
inductive History (meets : Call → Table → Prop) : List (Call × Except PaymentError (Option Transaction)) → Table → Prop
  | start : History meets [] Table.empty
  | next {past : List (Call × Except PaymentError (Option Transaction))} {before after : Table} {call : Call}
      {result : Except PaymentError (Option Transaction)} (earlier : History meets past before) (ok : meets call before)
      (run : (call.action provider parsers).Runs exec before after result) : History meets (past ++ [(call, result)]) after

end Calls

end Djangors.Payments
