import Mathlib.Data.Int.Basic

/-! # The Gregorian calendar

The date and the weekday of a day that is counted from 1 January 1970, and the days of a year and of a month. Years are
taken to start in March, so that the leap day is the last of its year; every 400 years have the same days. -/

namespace Calendar

/-- How many days after 1 March a day of a span of 400 years comes. -/
def dayOfYear (dayOfEra : Nat) : Nat :=
  let century := min (dayOfEra / 36524) 3
  let dayOfCentury := dayOfEra - 36524 * century
  let dayOfFour := dayOfCentury % 1461
  dayOfFour - 365 * min (dayOfFour / 365) 3

/-- The month and the day of the month that come so many days after 1 March. -/
def monthDayOf (dayOfYear : Nat) : Nat × Nat :=
  let month := (5 * dayOfYear + 2) / 153
  (if month < 10 then month + 3 else month - 9, dayOfYear - (153 * month + 2) / 5 + 1)

/-- The month and the day of the month of a day. -/
def monthDay (day : Int) : Nat × Nat := monthDayOf (dayOfYear ((day + 719468) % 146097).toNat)

/-- The weekday of a day, from 0 for Sunday. -/
def weekday (day : Int) : Nat := ((day + 4) % 7).toNat

/-- How many days a month has in a leap year. -/
def longest (month : Nat) : Nat :=
  if month = 2 then 29 else if month = 4 ∨ month = 6 ∨ month = 9 ∨ month = 11 then 30 else 31

example : monthDay 19782 = (2, 29) ∧ weekday 19782 = 4 := by decide

theorem dayOfYear_le {dayOfEra : Nat} (_ : dayOfEra < 146097) : dayOfYear dayOfEra ≤ 365 := by
  simp only [dayOfYear]
  omega

theorem monthDayOf_bounds : ∀ n ≤ 365, 1 ≤ (monthDayOf n).1 ∧ (monthDayOf n).1 ≤ 12 ∧ 1 ≤ (monthDayOf n).2 ∧
    (monthDayOf n).2 ≤ longest (monthDayOf n).1 := by
  decide +kernel

/-- How many days after 1 March a month starts. -/
def daysBefore (month : Nat) : Nat := (153 * (if 3 ≤ month then month - 3 else month + 9) + 2) / 5

theorem monthDayOf_daysBefore : ∀ month ≤ 12, 1 ≤ month → ∀ day ≤ longest month, 1 ≤ day →
    daysBefore month + (day - 1) ≤ 365 ∧ monthDayOf (daysBefore month + (day - 1)) = (month, day) := by
  decide +kernel

theorem monthDay_bounds (day : Int) : 1 ≤ (monthDay day).1 ∧ (monthDay day).1 ≤ 12 ∧ 1 ≤ (monthDay day).2 ∧
    (monthDay day).2 ≤ longest (monthDay day).1 :=
  monthDayOf_bounds _ (dayOfYear_le (by omega))

theorem weekday_lt (day : Int) : weekday day < 7 := by
  unfold weekday
  omega

/-- The days of the leap years from 2003 on: they are as many days after 1 March as one wants. -/
theorem monthDay_leapYear {k n : Nat} (hk : k < 7) (hn : n ≤ 365) : monthDay (12112 + 1461 * k + n : Nat) = monthDayOf n := by
  have hera : (((12112 + 1461 * k + n : Nat) : Int) + 719468) % 146097 = (1095 + 1461 * k + n : Nat) := by
    omega
  rw [monthDay, hera, Int.toNat_natCast]
  congr 1
  have hcentury : (1095 + 1461 * k + n) / 36524 = 0 := by omega
  have hfour : (1095 + 1461 * k + n) % 1461 = 1095 + n := by omega
  have hyear : (1095 + n) / 365 = 3 ∨ (1095 + n) / 365 = 4 := by omega
  simp only [dayOfYear, hcentury, Nat.zero_min, Nat.mul_zero, Nat.sub_zero, hfour]
  rcases hyear with h | h <;> rw [h] <;> omega

/-- Every day of a year falls on every weekday between 2003 and 2030. -/
theorem exists_day {month day : Nat} (hmonth : 1 ≤ month) (hmonth' : month ≤ 12) (hday : 1 ≤ day) (hday' : day ≤ longest month)
    {w : Nat} (hw : w < 7) : ∃ n : Nat, 12112 ≤ n ∧ n < 22280 ∧ monthDay n = (month, day) ∧ weekday n = w := by
  obtain ⟨hn, heq⟩ := monthDayOf_daysBefore month hmonth' hmonth day hday' hday
  generalize daysBefore month + (day - 1) = n at hn heq
  -- from one leap year to the next a day moves on by five weekdays
  refine ⟨12112 + 1461 * ((3 * (w + 7 * 60 - n - 6)) % 7) + n, by omega, by omega, ?_, ?_⟩
  · rw [monthDay_leapYear (Nat.mod_lt _ (by omega)) hn, heq]
  · unfold weekday
    omega

/-! ### Dates -/

def leap (year : Int) : Bool := year % 4 = 0 ∧ (year % 100 ≠ 0 ∨ year % 400 = 0)

/-- How many days a month of a year has. -/
def monthLength (year : Int) (month : Nat) : Nat := if month = 2 ∧ leap year = false then 28 else longest month

/-- The year that a day of a span of 400 years is in. -/
def yearOfEra (dayOfEra : Nat) : Nat :=
  let century := min (dayOfEra / 36524) 3
  let dayOfCentury := dayOfEra - 36524 * century
  let dayOfFour := dayOfCentury % 1461
  100 * century + 4 * (dayOfCentury / 1461) + min (dayOfFour / 365) 3

/-- The year of a day. January and February are the end of the year that started in the March before. -/
def year (day : Int) : Int :=
  400 * ((day + 719468) / 146097) + yearOfEra ((day + 719468) % 146097).toNat + if (monthDay day).1 ≤ 2 then 1 else 0

/-- A month and a day that a year has. -/
def Valid (year : Int) (month day : Nat) : Prop := (1 ≤ month ∧ month ≤ 12) ∧ 1 ≤ day ∧ day ≤ monthLength year month

instance (year : Int) (month day : Nat) : Decidable (Valid year month day) := inferInstanceAs (Decidable (_ ∧ _))

/-- The day of a date, counted from 1 January 1970. -/
def daysOf (year : Int) (month day : Nat) : Int :=
  let march := if month ≤ 2 then year - 1 else year
  365 * march + march / 4 - march / 100 + march / 400 + (daysBefore month + (day - 1) : Nat) - 719468

section Eras
variable {c q r n : Nat}

/-- The days of a span of 400 years by its century, its four years, its year and its day. -/
theorem ofEra {d : Nat} (hc : c ≤ 3) (hq : q ≤ 24) (hr : r ≤ 3) (hn : n ≤ 365) (hleap : n = 365 → r = 3 ∧ (q = 24 → c = 3))
    (hd : d = 36524 * c + 1461 * q + 365 * r + n) : d < 146097 ∧ dayOfYear d = n ∧ yearOfEra d = 100 * c + 4 * q + r := by
  have hcentury : min (d / 36524) 3 = c := by omega
  obtain ⟨f, hf⟩ : ∃ f, f = d - 36524 * c := ⟨_, rfl⟩
  have hfour : f % 1461 = 365 * r + n := by omega
  have hquarter : f / 1461 = q := by omega
  have hyear : min ((365 * r + n) / 365) 3 = r := by omega
  refine ⟨by omega, ?_, ?_⟩
  · rw [dayOfYear]
    simp only [hcentury, ← hf, hfour, hyear]
    omega
  · rw [yearOfEra]
    simp only [hcentury, ← hf, hfour, hyear, hquarter]

/-- Every day of a span of 400 years is one of them. -/
theorem exists_ofEra {d : Nat} (hd : d < 146097) : ∃ c q r n, c ≤ 3 ∧ q ≤ 24 ∧ r ≤ 3 ∧ n ≤ 365 ∧
    (n = 365 → r = 3 ∧ (q = 24 → c = 3)) ∧ d = 36524 * c + 1461 * q + 365 * r + n := by
  obtain ⟨c, hc⟩ : ∃ c, c = min (d / 36524) 3 := ⟨_, rfl⟩
  obtain ⟨q, hq⟩ : ∃ q, q = (d - 36524 * c) / 1461 := ⟨_, rfl⟩
  obtain ⟨r, hr⟩ : ∃ r, r = min ((d - 36524 * c - 1461 * q) / 365) 3 := ⟨_, rfl⟩
  exact ⟨c, q, r, d - 36524 * c - 1461 * q - 365 * r, by omega, by omega, by omega, by omega, by omega, by omega⟩

end Eras

theorem daysBefore_monthDayOf : ∀ n ≤ 365, daysBefore (monthDayOf n).1 + ((monthDayOf n).2 - 1) = n ∧
    (monthDayOf n = (2, 29) → n = 365) := by
  decide +kernel

theorem leap_iff {y : Int} : leap y = true ↔ y % 4 = 0 ∧ (y % 100 ≠ 0 ∨ y % 400 = 0) := by
  simp [leap]

theorem longest_le (month : Nat) : longest month ≤ 31 := by
  simp only [longest]
  split
  · omega
  · split <;> omega

theorem monthLength_le (y : Int) (month : Nat) : monthLength y month ≤ longest month := by
  rw [monthLength]
  split
  · rename_i h
    rw [h.1]
    decide
  · exact le_rfl

/-- The days before a year that starts in March. -/
theorem days_of_march {e : Int} {c q r : Nat} (hc : c ≤ 3) (hq : q ≤ 24) (hr : r ≤ 3) {y : Int}
    (hy : y = 400 * e + (100 * c + 4 * q + r : Nat)) :
    365 * y + y / 4 - y / 100 + y / 400 = 146097 * e + (36524 * c + 1461 * q + 365 * r : Nat) := by
  have hfour : y / 4 = 100 * e + (25 * c + q : Nat) := by omega
  have hcentury : y / 100 = 4 * e + (c : Nat) := by omega
  have hera : y / 400 = e := by omega
  rw [hfour, hcentury, hera]
  omega

/-- Every day has a date. -/
theorem daysOf_date (n : Int) : Valid (year n) (monthDay n).1 (monthDay n).2 ∧
    daysOf (year n) (monthDay n).1 (monthDay n).2 = n := by
  obtain ⟨e, he⟩ : ∃ e, e = (n + 719468) / 146097 := ⟨_, rfl⟩
  obtain ⟨d, hd⟩ : ∃ d, d = ((n + 719468) % 146097).toNat := ⟨_, rfl⟩
  obtain ⟨c, q, r, k, hc, hq, hr, hk, hleap, hsum⟩ := exists_ofEra (d := d) (by omega)
  obtain ⟨-, hday, hyear⟩ := ofEra hc hq hr hk hleap hsum
  obtain ⟨hbefore, hlast⟩ := daysBefore_monthDayOf k hk
  have hmonthDay : monthDay n = monthDayOf k := by rw [monthDay, ← hd, hday]
  have hyear : year n = 400 * e + (100 * c + 4 * q + r : Nat) + if (monthDayOf k).1 ≤ 2 then 1 else 0 := by
    rw [year, ← hd, ← he, hyear, hmonthDay]
  obtain ⟨hmonth, hmonth', hfirst, hlongest⟩ := monthDayOf_bounds k hk
  rw [hmonthDay]
  refine ⟨⟨⟨hmonth, hmonth'⟩, hfirst, ?_⟩, ?_⟩
  · rw [monthLength]
    split
    · rename_i hcommon
      have hnot : (monthDayOf k).2 ≠ 29 := by
        intro h29
        have hk365 := hlast (Prod.ext hcommon.1 h29)
        obtain ⟨hr3, hq24⟩ := hleap hk365
        have hleapYear : leap (year n) = true := by
          rw [leap_iff, hyear, if_pos (by omega)]
          omega
        rw [hleapYear] at hcommon
        exact absurd hcommon.2 (by decide)
      have h29 : longest (monthDayOf k).1 = 29 := by rw [hcommon.1]; rfl
      omega
    · exact hlongest
  · have hmarch : (if (monthDayOf k).1 ≤ 2 then year n - 1 else year n) = 400 * e + (100 * c + 4 * q + r : Nat) := by
      rw [hyear]
      split <;> omega
    have hdays := days_of_march hc hq hr hmarch
    simp only [daysOf]
    rw [hdays, hbefore]
    omega

/-- Every date is that of its day. -/
theorem date_daysOf {y : Int} {month day : Nat} (h : Valid y month day) :
    year (daysOf y month day) = y ∧ monthDay (daysOf y month day) = (month, day) := by
  obtain ⟨⟨hmonth, hmonth'⟩, hfirst, hlast⟩ := h
  have hlongest := Nat.le_trans hlast (monthLength_le y month)
  obtain ⟨hk, hof⟩ := monthDayOf_daysBefore month hmonth' hmonth day hlongest hfirst
  obtain ⟨k, hkeq⟩ : ∃ k, k = daysBefore month + (day - 1) := ⟨_, rfl⟩
  rw [← hkeq] at hk hof
  obtain ⟨march, hmarch⟩ : ∃ march, march = if month ≤ 2 then y - 1 else y := ⟨_, rfl⟩
  obtain ⟨e, he⟩ : ∃ e, e = march / 400 := ⟨_, rfl⟩
  obtain ⟨c, hc⟩ : ∃ c, c = (march % 400).toNat / 100 := ⟨_, rfl⟩
  obtain ⟨q, hq⟩ : ∃ q, q = (march % 400).toNat % 100 / 4 := ⟨_, rfl⟩
  obtain ⟨r, hr⟩ : ∃ r, r = (march % 400).toNat % 4 := ⟨_, rfl⟩
  have hparts : march = 400 * e + (100 * c + 4 * q + r : Nat) := by omega
  have hleap : k = 365 → r = 3 ∧ (q = 24 → c = 3) := by
    intro h365
    have hlastDay : monthDayOf 365 = (2, 29) := by decide
    obtain ⟨rfl, rfl⟩ := Prod.mk.inj ((h365 ▸ hof).symm.trans hlastDay)
    have hleapYear : leap y = true := by
      by_contra hcommon
      rw [monthLength, if_pos ⟨rfl, Bool.not_eq_true _ ▸ hcommon⟩] at hlast
      omega
    rw [leap_iff] at hleapYear
    rw [if_pos le_rfl] at hmarch
    omega
  obtain ⟨d, hd⟩ : ∃ d, d = 36524 * c + 1461 * q + 365 * r + k := ⟨_, rfl⟩
  obtain ⟨hera, hday, hyear⟩ := ofEra (by omega) (by omega) (by omega) hk hleap hd
  have hdays : daysOf y month day + 719468 = 146097 * e + d := by
    have hbefore := days_of_march (by omega) (by omega) (by omega) hparts
    simp only [daysOf]
    rw [← hmarch, hbefore, ← hkeq]
    omega
  have hmonthDay : monthDay (daysOf y month day) = (month, day) := by
    have hmod : ((daysOf y month day + 719468) % 146097).toNat = d := by omega
    rw [monthDay, hmod, hday, hof]
  refine ⟨?_, hmonthDay⟩
  have hdiv : (daysOf y month day + 719468) / 146097 = e := by omega
  have hmod : ((daysOf y month day + 719468) % 146097).toNat = d := by omega
  rw [year, hmonthDay, hdiv, hmod, hyear]
  split at hmarch <;> rename_i hif
  · rw [if_pos hif]
    omega
  · rw [if_neg hif]
    omega

/-! ### Years, months and days as intervals -/

section Intervals
variable {y y' n : Int} {month day : Nat}

theorem daysOf_day (y : Int) (month day : Nat) : daysOf y month day = daysOf y month 1 + (day - 1 : Nat) := by
  simp only [daysOf]
  omega

/-- A year starts after the years before it. -/
theorem daysOf_year_mono (h : y ≤ y') : daysOf y 1 1 ≤ daysOf y' 1 1 := by
  simp only [daysOf, daysBefore]
  omega

theorem month_cases (h : 1 ≤ month) (h' : month ≤ 12) : month = 1 ∨ month = 2 ∨ month = 3 ∨ month = 4 ∨ month = 5 ∨
    month = 6 ∨ month = 7 ∨ month = 8 ∨ month = 9 ∨ month = 10 ∨ month = 11 ∨ month = 12 := by
  omega

/-- The days of a year lie between its start and that of the next one. -/
theorem daysOf_bounds (h : Valid y month day) : daysOf y 1 1 ≤ daysOf y month day ∧ daysOf y month day < daysOf (y + 1) 1 1 := by
  obtain ⟨⟨hmonth, hmonth'⟩, hfirst, hlast⟩ := h
  have hleap := leap_iff (y := y)
  cases hyear : leap y <;> rw [hyear] at hleap <;>
    rcases month_cases hmonth hmonth' with rfl | rfl | rfl | rfl | rfl | rfl | rfl | rfl | rfl | rfl | rfl | rfl <;>
    simp [monthLength, longest, daysOf, daysBefore, hyear] at hlast hleap ⊢ <;>
    omega

theorem year_eq_iff : year n = y ↔ daysOf y 1 1 ≤ n ∧ n < daysOf (y + 1) 1 1 := by
  obtain ⟨hvalid, hdate⟩ := daysOf_date n
  have hbounds := daysOf_bounds hvalid
  rw [hdate] at hbounds
  constructor
  · rintro rfl
    exact hbounds
  · rintro ⟨hstart, hend⟩
    rcases Int.lt_trichotomy (year n) y with hlt | heq | hgt
    · have hafter : daysOf (year n + 1) 1 1 ≤ daysOf y 1 1 := daysOf_year_mono (by omega)
      omega
    · exact heq
    · have hafter : daysOf (y + 1) 1 1 ≤ daysOf (year n) 1 1 := daysOf_year_mono (by omega)
      omega

theorem date_eq_iff (h : Valid y month day) : year n = y ∧ monthDay n = (month, day) ↔ daysOf y month day = n := by
  constructor
  · rintro ⟨rfl, hmonthDay⟩
    have hdate := (daysOf_date n).2
    rwa [hmonthDay] at hdate
  · rintro rfl
    exact date_daysOf h

theorem month_eq_iff (h : 1 ≤ month) (h' : month ≤ 12) : year n = y ∧ (monthDay n).1 = month ↔
    daysOf y month 1 ≤ n ∧ n < daysOf y month 1 + monthLength y month := by
  constructor
  · rintro ⟨rfl, rfl⟩
    obtain ⟨⟨-, hfirst, hlast⟩, hdate⟩ := daysOf_date n
    rw [daysOf_day] at hdate
    omega
  · rintro ⟨hstart, hend⟩
    obtain ⟨day, hday⟩ : ∃ day : Nat, n = daysOf y month 1 + (day : Nat) := ⟨(n - daysOf y month 1).toNat, by omega⟩
    have hvalid : Valid y month (day + 1) := ⟨⟨h, h'⟩, by omega, by omega⟩
    have hn : daysOf y month (day + 1) = n := by
      rw [daysOf_day, hday]
      rfl
    obtain ⟨hyear, hmonthDay⟩ := (date_eq_iff hvalid).mpr hn
    exact ⟨hyear, congrArg Prod.fst hmonthDay⟩

/-- A month ends where the next one starts. -/
theorem daysOf_nextMonth (h : 1 ≤ month) (h' : month ≤ 11) :
    daysOf y (month + 1) 1 = daysOf y month 1 + monthLength y month := by
  have hleap := leap_iff (y := y)
  cases hyear : leap y <;> rw [hyear] at hleap <;>
    rcases month_cases h (by omega) with rfl | rfl | rfl | rfl | rfl | rfl | rfl | rfl | rfl | rfl | rfl | rfl <;>
    simp [monthLength, longest, daysOf, daysBefore, hyear] at hleap ⊢ <;>
    omega

theorem daysOf_nextYear : daysOf (y + 1) 1 1 = daysOf y 12 1 + monthLength y 12 := by
  simp [monthLength, longest, daysOf, daysBefore]
  omega

end Intervals

end Calendar
