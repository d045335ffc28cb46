import Djangors.Payments.Webhook

/-! # Amounts

How `bachs.rs` of `djangors-contrib-payments` prints an amount in minor units. -/

namespace Djangors.Payments

/-- `i64::abs`, which overflows for the smallest number. -/
def checkedAbs (i : Int64) : Option Nat := if i.toInt = -2 ^ 63 then none else some i.toInt.natAbs

/-- `{:0width$}` -/
def zeroPadded (width n : Nat) : String :=
  String.ofList (List.replicate (width - (toString n).length) '0' ++ (toString n).toList)

/-- `minor_to_decimal_string`, which can panic. -/
def minorToDecimalString (amountMinor : Int64) (currency : String) : Option String :=
  let exponent := currencyExponent currency
  if exponent = 0 then some (toString amountMinor.toInt)
  else do
    let absAmount ← checkedAbs amountMinor
    let divisor := 10 ^ exponent
    let integerPart := absAmount / divisor
    let fractionalPart := absAmount % divisor
    let sign := if amountMinor.toInt < 0 then "-" else ""
    return sign ++ toString integerPart ++ "." ++ zeroPadded exponent fractionalPart

end Djangors.Payments
