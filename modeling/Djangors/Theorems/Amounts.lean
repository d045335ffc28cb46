import Djangors.Lib.Except
import Djangors.Lib.Lines
import Djangors.Payments.Amounts

/-! # Money is converted exactly

An amount is a sign, digits, and after a dot at most as many digits as the currency has. Printing and parsing go
over the magnitude, which is no `i64` for the smallest amount. -/

namespace Djangors.Payments

/-! ### The texts of amounts -/

def number (digits : List Char) : Nat := Nat.ofDigitChars 10 digits 0

structure Amount where
  negative : Bool
  whole : List Char
  fraction : Option (List Char)

namespace Amount

def text (amount : Amount) : List Char :=
  (if amount.negative then ['-'] else []) ++ (amount.whole ++ amount.fraction.elim [] ('.' :: ·))

/-- The value in minor units, without its sign. -/
def magnitude (exponent : Nat) (amount : Amount) : Nat :=
  number amount.whole * 10 ^ exponent + number (amount.fraction.getD []) * 10 ^ (exponent - (amount.fraction.getD []).length)

def value (exponent : Nat) (amount : Amount) : Int :=
  if amount.negative then -(amount.magnitude exponent : Int) else amount.magnitude exponent

structure WellFormed (exponent : Nat) (amount : Amount) : Prop where
  nonempty : amount.whole ≠ []
  whole : ∀ c ∈ amount.whole, c.isDigit = true
  fraction : ∀ c ∈ amount.fraction.getD [], c.isDigit = true
  short : (amount.fraction.getD []).length ≤ exponent

end Amount

/-- A text is an amount with this value in minor units. -/
def IsAmount (exponent : Nat) (text : String) (value : Int) : Prop :=
  ∃ amount : Amount, amount.WellFormed exponent ∧ amount.text = text.toList ∧ amount.value exponent = value

/-- Printing does not panic, and what is printed is read as the amount. -/
def RoundTrips (currency : String) (amountMinor : Int64) : Prop :=
  ∃ text, minorToDecimalString amountMinor currency = some text ∧ decimalStringToMinor text currency = .ok amountMinor.toInt

/-- A text is read as an amount in an `i64` exactly when it is one. -/
def ReadExactly (currency text : String) : Prop :=
  ∀ v : Int, decimalStringToMinor text currency = .ok v ↔
    IsAmount (currencyExponent currency) text v ∧ -2 ^ 63 ≤ v ∧ v < 2 ^ 63

/-! ### Digits -/

section Digits
variable {digits : List Char}

theorem number_append (digits digits' : List Char) :
    number (digits ++ digits') = number digits * 10 ^ digits'.length + number digits' := by
  rw [number, Nat.ofDigitChars_append, Nat.ofDigitChars_eq_ofDigitChars_zero, Nat.mul_comm, number, number]

theorem number_zeros (digits : List Char) (n : Nat) : number (digits ++ List.replicate n '0') = number digits * 10 ^ n := by
  rw [number_append, List.length_replicate, number, number, Nat.ofDigitChars_replicate_zero, Nat.mul_zero, Nat.add_zero]

theorem zeros_number (n : Nat) (digits : List Char) : number (List.replicate n '0' ++ digits) = number digits := by
  rw [number_append, number, Nat.ofDigitChars_replicate_zero, Nat.mul_zero, Nat.zero_mul, Nat.zero_add]

theorem number_toString (n : Nat) : number (toString n).toList = n := by
  rw [number, Nat.toString_eq_ofList_toDigits, String.toList_ofList, Nat.ofDigitChars_ten_toDigits]

theorem number_lt (h : ∀ c ∈ digits, c.isDigit = true) : number digits < 10 ^ digits.length := by
  induction digits using List.reverseRecOn with
  | nil => simp [number]
  | append_singleton digits c ih =>
    have hlt := ih fun c hc => h c (by simp [hc])
    have hdigit : number [c] < 10 := by
      have hc := h c (by simp)
      simp only [Char.isDigit, ge_iff_le, Bool.and_eq_true, decide_eq_true_eq, UInt32.le_iff_toNat_le] at hc
      have hnine : '9'.val.toNat = 57 := rfl
      simp only [number, Nat.ofDigitChars_cons, Nat.ofDigitChars_nil, Char.toNat]
      have hzero : '0'.val.toNat = 48 := rfl
      omega
    rw [number_append, List.length_append, List.length_singleton, Nat.pow_succ]
    omega

/-- Digits are parsed as the number they write, if it is an `i64`. -/
theorem parseDigits_ok (hne : digits ≠ []) (h : ∀ c ∈ digits, c.isDigit = true) {v : Int} :
    parseDigits digits = .ok v ↔ v = number digits ∧ number digits < 2 ^ 63 := by
  have hparse : Text.parseSigned (2 ^ 63) digits =
      ((some (number digits)).map Int.ofNat).filter fun i => -((2 ^ 63 : Nat) : Int) ≤ i ∧ i < (2 ^ 63 : Nat) := by
    have hdigits : Text.digits? digits = some (number digits) := by
      rw [Text.digits?, if_pos ⟨hne, List.all_eq_true.mpr h⟩, number]
    rw [Text.parseSigned, hdigits]
    · rintro rest rfl
      exact absurd (h '+' (by simp)) (by decide)
    · rintro rest rfl
      exact absurd (h '-' (by simp)) (by decide)
  rw [parseDigits, hparse, Option.map_some, Option.filter_some]
  by_cases hlt : number digits < 2 ^ 63
  · have hin : decide (-((2 ^ 63 : Nat) : Int) ≤ Int.ofNat (number digits) ∧
        Int.ofNat (number digits) < (2 ^ 63 : Nat)) = true := by
      simp only [decide_eq_true_eq, Int.ofNat_eq_natCast]
      omega
    rw [if_pos hin]
    constructor
    · rintro ⟨⟩
      exact ⟨rfl, hlt⟩
    · rintro ⟨rfl, -⟩
      rfl
  · have hout : ¬ decide (-((2 ^ 63 : Nat) : Int) ≤ Int.ofNat (number digits) ∧
        Int.ofNat (number digits) < (2 ^ 63 : Nat)) = true := by
      simp only [decide_eq_true_eq, Int.ofNat_eq_natCast]
      omega
    rw [if_neg hout]
    exact iff_of_false (by rintro ⟨⟩) fun h => hlt h.2

end Digits

/-! ### Parsing -/

section Parsing
variable {amount currency : String} {negative : Bool} {rest whole fraction : List Char} {v : Int}

/-- What `decimal_string_to_minor` reads behind the dot. -/
def readFraction (amount currency : String) (fracStr : List Char) : Except PaymentError Int :=
  let exponent := currencyExponent currency
  if exponent = 0 then
    if !fracStr.isEmpty then
      .error (.unexpectedResponse ("currency `" ++ currency ++
        "` expects 0 decimal places, but got fractional part in `" ++ amount ++ "`"))
    else .ok 0
  else if !fracStr.all Char.isDigit then
    .error (.unexpectedResponse ("malformed fractional part: `" ++ amount ++ "`"))
  else if fracStr.length > exponent then
    .error (.unexpectedResponse ("fractional part of `" ++ amount ++ "` is longer than allowed exponent " ++
      toString exponent))
  else (parseDigits (fracStr ++ List.replicate (exponent - fracStr.length) '0')).mapError fun e =>
    .unexpectedResponse ("failed to parse fractional part in `" ++ amount ++ "`: " ++ e)

/-- What it reads of the two parts. -/
def readParts (amount currency : String) (isNegative : Bool) (integerStr fracStr : List Char) : Except PaymentError Int := do
  let exponent := currencyExponent currency
  if integerStr.isEmpty || !integerStr.all Char.isDigit then
    .error (.unexpectedResponse ("malformed integer part: `" ++ amount ++ "`"))
  let integerVal ← (parseDigits integerStr).mapError fun e =>
    .unexpectedResponse ("failed to parse integer part in `" ++ amount ++ "`: " ++ e)
  let fractionalVal ← if exponent = 0 then
      if !fracStr.isEmpty then
        .error (.unexpectedResponse ("currency `" ++ currency ++
          "` expects 0 decimal places, but got fractional part in `" ++ amount ++ "`"))
      else .ok 0
    else if !fracStr.all Char.isDigit then
      .error (.unexpectedResponse ("malformed fractional part: `" ++ amount ++ "`"))
    else if fracStr.length > exponent then
      .error (.unexpectedResponse ("fractional part of `" ++ amount ++ "` is longer than allowed exponent " ++
        toString exponent))
    else (parseDigits (fracStr ++ List.replicate (exponent - fracStr.length) '0')).mapError fun e =>
      .unexpectedResponse ("failed to parse fractional part in `" ++ amount ++ "`: " ++ e)
  let scaled := integerVal * 10 ^ exponent
  let combined := scaled + fractionalVal
  if fitsI64 scaled && fitsI64 combined then .ok (if isNegative then -combined else combined)
  else .error (.unexpectedResponse ("amount `" ++ amount ++ "` is too large to represent"))

/-- The sign of a text, and what follows it. -/
def splitSign : List Char → Bool × List Char
  | '-' :: stripped => (true, stripped)
  | chars => (false, chars)

theorem decimalStringToMinor_eq : decimalStringToMinor amount currency =
    if amount.isEmpty then .error (.unexpectedResponse "amount string is empty")
    else if ((splitSign amount.toList).2.splitOn '.').length > 2 then
      .error (.unexpectedResponse ("malformed amount string: `" ++ amount ++ "`"))
    else readParts amount currency (splitSign amount.toList).1 (((splitSign amount.toList).2.splitOn '.').headD [])
      (((splitSign amount.toList).2.splitOn '.').getD 1 []) := by
  rw [decimalStringToMinor]
  by_cases hempty : amount.isEmpty
  · rw [if_pos hempty, if_pos hempty]
    rfl
  · rw [if_neg hempty, if_neg hempty]
    by_cases hlong : ((splitSign amount.toList).2.splitOn '.').length > 2
    · rw [if_pos hlong]
      exact (if_pos hlong).trans rfl
    · rw [if_neg hlong]
      exact (if_neg hlong).trans rfl

/-- Behind the checks both parts are read, and put together. -/
theorem readParts_eq : readParts amount currency negative whole fraction =
    if whole.isEmpty || !whole.all Char.isDigit then
      .error (.unexpectedResponse ("malformed integer part: `" ++ amount ++ "`"))
    else (do
      let integerVal ← (parseDigits whole).mapError fun e =>
        .unexpectedResponse ("failed to parse integer part in `" ++ amount ++ "`: " ++ e)
      let fractionalVal ← readFraction amount currency fraction
      let scaled := integerVal * 10 ^ currencyExponent currency
      if fitsI64 scaled && fitsI64 (scaled + fractionalVal) then
        .ok (if negative then -(scaled + fractionalVal) else scaled + fractionalVal)
      else .error (.unexpectedResponse ("amount `" ++ amount ++ "` is too large to represent"))) := by
  rw [readParts]
  by_cases hbad : (whole.isEmpty || !whole.all Char.isDigit) = true
  · rw [if_pos hbad, if_pos hbad]
    rfl
  · rw [if_neg hbad, if_neg hbad]
    refine bind_congr fun integerVal => ?_
    rw [readFraction]
    by_cases hzero : currencyExponent currency = 0
    · rw [if_pos hzero, if_pos hzero]
      split <;> rfl
    · rw [if_neg hzero, if_neg hzero]
      split
      · rfl
      · split <;> rfl

theorem currencyExponent_le : currencyExponent currency ≤ 3 := by
  rw [currencyExponent]
  split
  · exact Nat.zero_le _
  · split <;> simp

theorem readFraction_ok : readFraction amount currency fraction = .ok v ↔
    (∀ c ∈ fraction, c.isDigit = true) ∧ fraction.length ≤ currencyExponent currency ∧
      v = (number fraction * 10 ^ (currencyExponent currency - fraction.length) : Nat) := by
  rw [readFraction]
  by_cases hzero : currencyExponent currency = 0
  · rw [if_pos hzero, hzero]
    cases fraction with
    | nil =>
      constructor
      · rintro ⟨⟩
        exact ⟨by simp, by simp, by simp [number]⟩
      · rintro ⟨-, -, rfl⟩
        simp [number]
    | cons c fraction => simp
  · rw [if_neg hzero]
    by_cases hdigits : ∀ c ∈ fraction, c.isDigit = true
    · rw [if_neg (by simpa using hdigits)]
      by_cases hlong : fraction.length > currencyExponent currency
      · rw [if_pos hlong]
        exact iff_of_false (by rintro ⟨⟩) fun h => Nat.not_le.mpr hlong h.2.1
      · have hle := Nat.le_of_not_lt hlong
        have hpadded : fraction ++ List.replicate (currencyExponent currency - fraction.length) '0' ≠ [] := by
          intro hnil
          have hlength := congrArg List.length hnil
          simp only [List.length_append, List.length_replicate, List.length_nil] at hlength
          omega
        have hall : ∀ c ∈ fraction ++ List.replicate (currencyExponent currency - fraction.length) '0', c.isDigit = true := by
          intro c hc
          rcases List.mem_append.mp hc with hc | hc
          · exact hdigits c hc
          · rw [List.eq_of_mem_replicate hc]
            rfl
        -- three digits are always an `i64`
        have hsmall : number (fraction ++ List.replicate (currencyExponent currency - fraction.length) '0') < 2 ^ 63 := by
          have hlt := number_lt hall
          have hpow : 10 ^ (fraction ++ List.replicate (currencyExponent currency - fraction.length) '0').length ≤ 10 ^ 3 := by
            refine Nat.pow_le_pow_right (by omega) ?_
            have := @currencyExponent_le currency
            simp only [List.length_append, List.length_replicate]
            omega
          omega
        rw [if_neg hlong, Except.mapError_eq_ok, parseDigits_ok hpadded hall, number_zeros]
        rw [number_zeros] at hsmall
        exact ⟨fun h => ⟨hdigits, hle, h.1⟩, fun h => ⟨h.2.2, hsmall⟩⟩
    · rw [if_pos (by simpa using hdigits)]
      exact iff_of_false (by rintro ⟨⟩) fun h => hdigits h.1

/-- The parts of an amount are read as its value, if its magnitude is an `i64`. -/
theorem readParts_ok (parts : Amount) :
    readParts amount currency parts.negative parts.whole (parts.fraction.getD []) = .ok v ↔
      parts.WellFormed (currencyExponent currency) ∧ parts.magnitude (currencyExponent currency) < 2 ^ 63 ∧
        v = parts.value (currencyExponent currency) := by
  rw [readParts_eq]
  by_cases hwhole : parts.whole ≠ [] ∧ ∀ c ∈ parts.whole, c.isDigit = true
  · rw [if_neg (by simpa using hwhole), Except.bind_eq_ok]
    simp only [Except.mapError_eq_ok, parseDigits_ok hwhole.1 hwhole.2, Except.bind_eq_ok, readFraction_ok]
    have hfits (n : Nat) : fitsI64 (n : Int) = true ↔ n < 2 ^ 63 := by
      simp only [fitsI64, Bool.and_eq_true, decide_eq_true_eq]
      omega
    have hscaled : (number parts.whole : Int) * 10 ^ currencyExponent currency =
        (number parts.whole * 10 ^ currencyExponent currency : Nat) := by
      simp
    have hcombined : (number parts.whole : Int) * 10 ^ currencyExponent currency +
        (number (parts.fraction.getD []) * 10 ^ (currencyExponent currency - (parts.fraction.getD []).length) : Nat) =
        (parts.magnitude (currencyExponent currency) : Nat) := by
      simp [Amount.magnitude]
    constructor
    · rintro ⟨_, ⟨rfl, hsmall⟩, _, ⟨hdigits, hle, rfl⟩, h⟩
      split at h
      · rename_i hboth
        rw [Bool.and_eq_true, hcombined, hfits] at hboth
        rw [hcombined] at h
        exact ⟨⟨hwhole.1, hwhole.2, hdigits, hle⟩, hboth.2, (Except.ok.inj h).symm⟩
      · cases h
    · rintro ⟨hwell, hsmall, rfl⟩
      have hle : number parts.whole * 10 ^ currencyExponent currency ≤ parts.magnitude (currencyExponent currency) :=
        Nat.le_add_right ..
      have hpos : 0 < 10 ^ currencyExponent currency := Nat.pos_of_ne_zero (by simp)
      have hwholeLe : number parts.whole ≤ number parts.whole * 10 ^ currencyExponent currency := Nat.le_mul_of_pos_right _ hpos
      refine ⟨_, ⟨rfl, by omega⟩, _, ⟨hwell.fraction, hwell.short, rfl⟩, ?_⟩
      have hboth : (fitsI64 ((number parts.whole : Int) * 10 ^ currencyExponent currency) &&
          fitsI64 (parts.magnitude (currencyExponent currency))) = true := by
        rw [Bool.and_eq_true, hscaled, hfits, hfits]
        exact ⟨by omega, hsmall⟩
      rw [hcombined, if_pos hboth]
      rfl
  · rw [if_pos (by simpa [Classical.or_iff_not_imp_left] using hwhole)]
    exact iff_of_false (by rintro ⟨⟩) fun h => hwhole ⟨h.1.nonempty, h.1.whole⟩

/-- A text is its sign and the rest. -/
theorem splitSign_append (text : List Char) :
    (if (splitSign text).1 then ['-'] else []) ++ (splitSign text).2 = text := by
  unfold splitSign
  split <;> simp

theorem splitSign_text {exponent : Nat} {parts : Amount} (h : parts.WellFormed exponent) :
    splitSign parts.text = (parts.negative, parts.whole ++ parts.fraction.elim [] ('.' :: ·)) := by
  cases hneg : parts.negative with
  | true => simp [Amount.text, hneg, splitSign]
  | false =>
    rcases hwhole : parts.whole with _ | ⟨c, whole⟩
    · exact absurd hwhole h.nonempty
    · have hc : c ≠ '-' := by
        rintro rfl
        exact absurd (h.whole '-' (by simp [hwhole])) (by decide)
      simp only [Amount.text, hneg, hwhole, Bool.false_eq_true, if_false, List.nil_append, List.cons_append]
      unfold splitSign
      split
      · rename_i heq
        exact absurd (List.cons.inj heq).1 hc
      · rfl

theorem dot_notMem {digits : List Char} (h : ∀ c ∈ digits, c.isDigit = true) : '.' ∉ digits := fun hdot =>
  absurd (h '.' hdot) (by decide)

theorem splitOn_parts {exponent : Nat} {parts : Amount} (h : parts.WellFormed exponent) :
    (parts.whole ++ parts.fraction.elim [] ('.' :: ·)).splitOn '.' = parts.whole :: parts.fraction.toList := by
  cases hfraction : parts.fraction with
  | none => simp [List.splitOn_eq_singleton (dot_notMem h.whole)]
  | some fraction =>
    have hdigits := h.fraction
    rw [hfraction] at hdigits
    simp only [Option.getD_some] at hdigits
    simp [List.splitOn_append_cons_self, List.splitOn_eq_singleton (dot_notMem h.whole),
      List.splitOn_eq_singleton (dot_notMem hdigits)]

/-- What is read as a number is an amount whose magnitude is an `i64`. -/
theorem decimal_ok : decimalStringToMinor amount currency = .ok v ↔
    ∃ parts : Amount, parts.WellFormed (currencyExponent currency) ∧ parts.text = amount.toList ∧
      parts.magnitude (currencyExponent currency) < 2 ^ 63 ∧ v = parts.value (currencyExponent currency) := by
  rw [decimalStringToMinor_eq]
  constructor
  · intro h
    split at h
    · cases h
    · split at h
      · cases h
      · rename_i hshort
        obtain ⟨parts, hneg, hrest, hwhole, hfraction⟩ : ∃ parts : Amount, parts.negative = (splitSign amount.toList).1 ∧
            parts.whole ++ parts.fraction.elim [] ('.' :: ·) = (splitSign amount.toList).2 ∧
            parts.whole = ((splitSign amount.toList).2.splitOn '.').headD [] ∧
            parts.fraction.getD [] = ((splitSign amount.toList).2.splitOn '.').getD 1 [] := by
          generalize (splitSign amount.toList).2 = rest at hshort
          induction rest using Text.splitOn_induct '.' with
          | piece l hl =>
            exact ⟨⟨(splitSign amount.toList).1, l, none⟩, rfl, by simp, by simp [List.splitOn_eq_singleton hl],
              by simp [List.splitOn_eq_singleton hl]⟩
          | more l r hl _ =>
            have hparts : (l ++ '.' :: r).splitOn '.' = l :: r.splitOn '.' := by
              rw [List.splitOn_append_cons_self, List.splitOn_eq_singleton hl, List.singleton_append]
            by_cases hr : '.' ∈ r
            · obtain ⟨f, more, rfl, hf⟩ := List.eq_append_cons_of_mem hr
              rw [hparts, List.splitOn_append_cons_self, List.splitOn_eq_singleton hf] at hshort
              have hne := List.length_pos_of_ne_nil (List.splitOn_ne_nil '.' more)
              simp only [List.length_cons, List.length_append, List.length_nil] at hshort
              omega
            · exact ⟨⟨(splitSign amount.toList).1, l, some r⟩, rfl, by simp, by simp [hparts],
                by simp [hparts, List.splitOn_eq_singleton hr]⟩
        rw [← hneg, ← hwhole, ← hfraction, readParts_ok] at h
        refine ⟨parts, h.1, ?_, h.2⟩
        rw [Amount.text, hneg, hrest, splitSign_append]
  · rintro ⟨parts, hwell, htext, hsmall, rfl⟩
    have hnonempty : ¬ amount.isEmpty = true := by
      rw [String.isEmpty_iff]
      rintro rfl
      have hlength := congrArg List.length htext
      have hwhole := List.length_pos_of_ne_nil hwell.nonempty
      simp only [Amount.text, List.length_append, String.toList_empty, List.length_nil] at hlength
      omega
    have hshort : ¬ (parts.whole :: parts.fraction.toList).length > 2 := by
      cases parts.fraction <;> simp
    have hfraction : (parts.whole :: parts.fraction.toList).getD 1 [] = parts.fraction.getD [] := by
      cases parts.fraction <;> rfl
    rw [if_neg hnonempty, ← htext, splitSign_text hwell, splitOn_parts hwell, if_neg hshort, hfraction, List.headD_cons]
    exact (readParts_ok parts).mpr ⟨hwell, hsmall, rfl⟩

end Parsing

/-! ### Printing -/

section Printing
variable {currency : String} {amountMinor : Int64}

theorem zeroPadded_digits {width n : Nat} (h : n < 10 ^ width) (hwidth : width ≠ 0) :
    (zeroPadded width n).toList.length = width ∧ (∀ c ∈ (zeroPadded width n).toList, c.isDigit = true) ∧
      number (zeroPadded width n).toList = n := by
  have hlength : (toString n).length ≤ width := by
    rw [Nat.toString_eq_ofList_toDigits, String.length_ofList]
    exact (Nat.length_toDigits_le_iff (by omega) (Nat.pos_of_ne_zero hwidth)).mpr h
  rw [zeroPadded, String.toList_ofList]
  refine ⟨?_, fun c hc => ?_, by rw [zeros_number, number_toString]⟩
  · rw [List.length_append, List.length_replicate, String.length_toList]
    omega
  · rcases List.mem_append.mp hc with hc | hc
    · rw [List.eq_of_mem_replicate hc]
      rfl
    · exact (Text.digits_of_toString n).2 c hc

/-- The parts of what is printed. -/
def printed (currency : String) (amountMinor : Int64) : Amount where
  negative := amountMinor.toInt < 0
  whole := (toString (amountMinor.toInt.natAbs / 10 ^ currencyExponent currency)).toList
  fraction := if currencyExponent currency = 0 then none
    else some (zeroPadded (currencyExponent currency) (amountMinor.toInt.natAbs % 10 ^ currencyExponent currency)).toList

theorem printed_wellFormed : (printed currency amountMinor).WellFormed (currencyExponent currency) ∧
    (printed currency amountMinor).value (currencyExponent currency) = amountMinor.toInt := by
  have hwhole := Text.digits_of_toString (amountMinor.toInt.natAbs / 10 ^ currencyExponent currency)
  have hsuffices : (printed currency amountMinor).WellFormed (currencyExponent currency) ∧
      (printed currency amountMinor).magnitude (currencyExponent currency) = amountMinor.toInt.natAbs := by
    by_cases hzero : currencyExponent currency = 0
    · have hfraction : (printed currency amountMinor).fraction = none := if_pos hzero
      refine ⟨⟨hwhole.1, hwhole.2, by simp [hfraction], by simp [hfraction]⟩, ?_⟩
      rw [Amount.magnitude, hfraction, printed, number_toString, hzero]
      simp [number]
    · have hlt : amountMinor.toInt.natAbs % 10 ^ currencyExponent currency < 10 ^ currencyExponent currency :=
        Nat.mod_lt _ (Nat.pos_of_ne_zero (by simp))
      obtain ⟨hlength, hdigits, hnumber⟩ := zeroPadded_digits hlt hzero
      have hfraction : (printed currency amountMinor).fraction = some (zeroPadded (currencyExponent currency)
          (amountMinor.toInt.natAbs % 10 ^ currencyExponent currency)).toList := if_neg hzero
      refine ⟨⟨hwhole.1, hwhole.2, ?_, ?_⟩, ?_⟩
      · rw [hfraction]
        exact hdigits
      · rw [hfraction]
        exact hlength.le
      · rw [Amount.magnitude, hfraction, Option.getD_some, hnumber, hlength, Nat.sub_self, Nat.pow_zero, Nat.mul_one, printed,
          number_toString]
        exact Nat.div_add_mod' ..
  refine ⟨hsuffices.1, ?_⟩
  have hnegative : (printed currency amountMinor).negative = decide (amountMinor.toInt < 0) := rfl
  rw [Amount.value, hsuffices.2, hnegative]
  by_cases hneg : amountMinor.toInt < 0
  · rw [if_pos (decide_eq_true hneg)]
    omega
  · rw [if_neg (by simpa using hneg)]
    omega

theorem toString_int (i : Int) : (toString i).toList = (if i < 0 then ['-'] else []) ++ (toString i.natAbs).toList := by
  cases i with
  | ofNat n => rfl
  | negSucc n =>
    rw [Text.toString_negSucc, if_pos (Int.negSucc_lt_zero n)]
    rfl

theorem minorToDecimalString_printed (h : amountMinor.toInt ≠ -2 ^ 63) :
    ∃ text, minorToDecimalString amountMinor currency = some text ∧ (printed currency amountMinor).text = text.toList := by
  rw [minorToDecimalString]
  by_cases hzero : currencyExponent currency = 0
  · refine ⟨_, if_pos hzero, ?_⟩
    have hfraction : (printed currency amountMinor).fraction = none := if_pos hzero
    rw [Amount.text, hfraction, toString_int, printed, hzero]
    simp
  · have habs : checkedAbs amountMinor = some amountMinor.toInt.natAbs := if_neg h
    have hfraction : (printed currency amountMinor).fraction = some (zeroPadded (currencyExponent currency)
        (amountMinor.toInt.natAbs % 10 ^ currencyExponent currency)).toList := if_neg hzero
    refine ⟨_, (if_neg hzero).trans (by rw [habs]; rfl), ?_⟩
    rw [Amount.text, hfraction, printed]
    by_cases hneg : amountMinor.toInt < 0 <;> simp [hneg]

end Printing

theorem magnitude_eq_natAbs (exponent : Nat) (parts : Amount) : parts.magnitude exponent = (parts.value exponent).natAbs := by
  rw [Amount.value]
  split <;> simp

/-- Whatever is read lies above the smallest `i64`. -/
theorem read_bounds {text currency : String} {v : Int} (h : decimalStringToMinor text currency = .ok v) :
    -2 ^ 63 < v ∧ v < 2 ^ 63 := by
  obtain ⟨parts, -, -, hsmall, rfl⟩ := decimal_ok.mp h
  rw [magnitude_eq_natAbs] at hsmall
  omega

theorem not_roundTrips {currency : String} {amountMinor : Int64} (h : amountMinor.toInt = -2 ^ 63) :
    ¬ RoundTrips currency amountMinor := by
  rintro ⟨text, -, hread⟩
  have := (read_bounds hread).1
  omega

theorem not_readExactly {currency text : String} (h : IsAmount (currencyExponent currency) text (-2 ^ 63)) :
    ¬ ReadExactly currency text := by
  intro reads
  have := (read_bounds ((reads _).mpr ⟨h, by omega, by omega⟩)).1
  omega

/-- Printing and parsing are exact but for the smallest `i64`: it is not printed, or not read again, and no text
    of an amount of its size is read. -/
theorem conversions_exact_iff (currency : String) :
    (∀ amountMinor : Int64, RoundTrips currency amountMinor ↔ amountMinor.toInt ≠ -2 ^ 63) ∧
      ∀ text, ReadExactly currency text ↔ ¬ IsAmount (currencyExponent currency) text (-2 ^ 63) := by
  refine ⟨fun amountMinor => ⟨fun trips heq => not_roundTrips heq trips, fun h => ?_⟩,
    fun text => ⟨fun reads smallest => not_readExactly smallest reads, fun h v => ⟨fun hv => ?_, ?_⟩⟩⟩
  · obtain ⟨text, hprint, htext⟩ := @minorToDecimalString_printed currency amountMinor h
    obtain ⟨hwell, hvalue⟩ := @printed_wellFormed currency amountMinor
    refine ⟨text, hprint, decimal_ok.mpr ⟨_, hwell, htext, ?_, hvalue.symm⟩⟩
    have := amountMinor.toInt_lt
    have := amountMinor.le_toInt
    rw [magnitude_eq_natAbs, hvalue]
    omega
  · obtain ⟨parts, hwell, htext, hsmall, rfl⟩ := decimal_ok.mp hv
    exact ⟨⟨parts, hwell, htext, rfl⟩, Int.le_of_lt (read_bounds hv).1, (read_bounds hv).2⟩
  · rintro ⟨⟨parts, hwell, htext, rfl⟩, hlow, hhigh⟩
    refine decimal_ok.mpr ⟨parts, hwell, htext, ?_, rfl⟩
    have hne : parts.value (currencyExponent currency) ≠ -2 ^ 63 := fun heq => h ⟨parts, hwell, htext, heq⟩
    rw [magnitude_eq_natAbs]
    omega

/-- The smallest amount is lost in every currency, and its text is not read. -/
theorem smallest_lost : ¬ RoundTrips "USD" Int64.minValue ∧ ¬ ReadExactly "JPY" "-9223372036854775808" := by
  refine ⟨not_roundTrips (by decide), not_readExactly ?_⟩
  have hwhole : "9223372036854775808".toList = (toString (2 ^ 63 : Nat)).toList := by decide +kernel
  have hexponent : currencyExponent "JPY" = 0 := by decide +kernel
  refine ⟨⟨true, (toString (2 ^ 63 : Nat)).toList, none⟩, ⟨(Text.digits_of_toString _).1, (Text.digits_of_toString _).2,
    by simp, by simp⟩, ?_, ?_⟩
  · rw [Amount.text, ← hwhole]
    simp
  · simp [Amount.value, Amount.magnitude, hexponent, number]

end Djangors.Payments
