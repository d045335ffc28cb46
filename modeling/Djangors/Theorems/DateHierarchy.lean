import Djangors.Admin.Changelist
import Djangors.Theorems.TenantBreaches

/-! # The date hierarchy

A range has the instants of its year, month or day, and a value that is offered leads to a range with a row, as far as
the dates of chrono go. -/

namespace Djangors.Admin
open Db Http Orm Sql
open Migrations (CaseMap)

attribute [local instance] Calendar.chrono

/-- An instant has a year, and the month and the day that are given. -/
def InPeriod (year : Int) (month day : Option Nat) (t : DateTime) : Prop :=
  Calendar.year (dayOf t) = year ∧ (∀ m ∈ month, (Calendar.monthDay (dayOf t)).1 = m) ∧
    ∀ d ∈ day, (Calendar.monthDay (dayOf t)).2 = d

/-- A parameter of the query is missing, or reads as a number. -/
def ReadsAs {α : Type} (parse : List Char → Option α) (raw : Option String) (v : Option α) : Prop :=
  match raw with
  | none => v = none
  | some s => ∃ a, parse s.toList = some a ∧ v = some a

/-- What the parameters of a date read as. -/
structure Reading (req : AdminRequest) (year : Option Int) (month day : Option Nat) : Prop where
  year : ReadsAs (Text.parseSigned (2 ^ 31)) (req.query "year") year
  month : ReadsAs (Text.parseUnsigned (2 ^ 32)) (req.query "month") month
  day : ReadsAs (Text.parseUnsigned (2 ^ 32)) (req.query "day") day

/-- The request is bad, or its state has the numbers that are given and the range with exactly their instants. -/
def RangeExact (req : AdminRequest) (admin : ModelAdmin) : Prop :=
  match parseChangelistQueryState req admin with
  | .error (.error (.badRequest _)) => True
  | .error _ => False
  | .ok state =>
    Reading req state.year state.month state.day ∧
    (state.dateRange = none → admin.config.dateHierarchy = none ∨ state.year = none) ∧
    ∀ range, state.dateRange = some range → ∃ y, state.year = some y ∧
      ∀ t, Spans range t ↔ InPeriod y state.month state.day t

/-- A day comes with a month, unless chrono does not have the year or the next one, and is not the last day. -/
def DayCovered (req : AdminRequest) (admin : ModelAdmin) : Prop :=
  ∀ y month d, admin.config.dateHierarchy.isSome → Reading req (some y) month (some d) →
    (month = none → y < firstYear ∨ lastYear ≤ y) ∧ ¬(y = lastYear ∧ month = some 12 ∧ d = 31)

/-! ### Ranges -/

section Ranges

theorem bind_ok {ε α β : Type} (a : α) (f : α → Except ε β) : ((.ok a : Except ε α) >>= f) = f a := rfl

variable {y : Int} {m d : Nat} {month day : Option Nat} {range : DateTime × DateTime} {t : DateTime}

/-- A range of days. -/
theorem spans_days {a b : Int} : Spans (midnightOf a, midnightOf b) t ↔ a ≤ dayOf t ∧ dayOf t < b := by
  simp only [Spans, midnightOf, dayOf, dayNanos]
  omega

theorem midnight_eq (y : Int) (m d : Nat) : Calendar.midnight y m d =
    if HasDate y m d then some (midnightOf (Calendar.daysOf y m d)) else none := rfl

theorem dayLater_eq (t : DateTime) : Calendar.dayLater t =
    if t.nanos + dayNanos < (midnightOf (Calendar.daysOf (lastYear + 1) 1 1)).nanos then some ⟨t.nanos + dayNanos⟩ else none := rfl

theorem valid_first (y : Int) {m : Nat} (h : 1 ≤ m) (h' : m ≤ 12) : Calendar.Valid y m 1 := by
  refine ⟨⟨h, h'⟩, le_rfl, ?_⟩
  simp only [Calendar.monthLength, Calendar.longest]
  split
  · omega
  · split
    · omega
    · split <;> omega

theorem daysOf_lastDay : Calendar.daysOf lastYear 12 31 + 1 = Calendar.daysOf (lastYear + 1) 1 1 := by decide

/-- The last day has no day after it. -/
theorem dayLater_midnight (hy : y ≤ lastYear) (h : Calendar.Valid y m d) :
    Calendar.dayLater (midnightOf (Calendar.daysOf y m d)) =
      if y = lastYear ∧ m = 12 ∧ d = 31 then none else some (midnightOf (Calendar.daysOf y m d + 1)) := by
  have hafter : Calendar.daysOf y m d < Calendar.daysOf (lastYear + 1) 1 1 :=
    Int.lt_of_lt_of_le (Calendar.daysOf_bounds h).2 (Calendar.daysOf_year_mono (by omega))
  have hlast : y = lastYear ∧ m = 12 ∧ d = 31 ↔ ¬Calendar.daysOf y m d + 1 < Calendar.daysOf (lastYear + 1) 1 1 := by
    constructor
    · rintro ⟨rfl, rfl, rfl⟩
      rw [daysOf_lastDay]
      omega
    · intro hnot
      have heq : Calendar.daysOf y m d = Calendar.daysOf lastYear 12 31 := by
        have := daysOf_lastDay
        omega
      obtain ⟨hyear, hmonthDay⟩ := Calendar.date_daysOf h
      have hvalid : Calendar.Valid lastYear 12 31 := by decide
      obtain ⟨hyear', hmonthDay'⟩ := Calendar.date_daysOf hvalid
      rw [heq] at hyear hmonthDay
      exact ⟨hyear.symm.trans hyear', Prod.mk.inj (hmonthDay.symm.trans hmonthDay')⟩
  have hif : (midnightOf (Calendar.daysOf y m d)).nanos + dayNanos < (midnightOf (Calendar.daysOf (lastYear + 1) 1 1)).nanos ↔
      Calendar.daysOf y m d + 1 < Calendar.daysOf (lastYear + 1) 1 1 := by
    simp only [midnightOf, dayNanos]
    omega
  have hsum : midnightOf (Calendar.daysOf y m d + 1) = ⟨(midnightOf (Calendar.daysOf y m d)).nanos + dayNanos⟩ := by
    simp only [midnightOf, dayNanos, DateTime.mk.injEq]
    omega
  rw [dayLater_eq, hsum]
  by_cases h : y = lastYear ∧ m = 12 ∧ d = 31
  · rw [if_pos h, if_neg (hif.not.mpr (hlast.mp h))]
  · rw [if_neg h, if_pos (hif.mpr (Decidable.not_not.mp (hlast.not.mp h)))]

/-- Midnight of a date, or the message of the error. -/
theorem orElse_midnight (message : List Char) : (Rest.orElse (Calendar.midnight y m d) (.badRequest message)).mapError Fault.error =
    if HasDate y m d then .ok (midnightOf (Calendar.daysOf y m d)) else .error (.error (.badRequest message)) := by
  rw [midnight_eq]
  by_cases h : HasDate y m d
  · rw [if_pos h, if_pos h]
    rfl
  · rw [if_neg h, if_neg h]
    rfl

/-- A bad request, or the panic of the last day. -/
def Refused (y : Int) (month day : Option Nat) (fault : Fault) : Prop :=
  (∃ message, fault = .error (.badRequest message)) ∨ fault = .panic ∧ y = lastYear ∧ month = some 12 ∧ day = some 31

/-- What a range of dates is, when there is one. -/
def RangeIs (y : Int) (month day : Option Nat) (range : DateTime × DateTime) : Prop :=
  match month, day with
  | none, _ => (firstYear ≤ y ∧ y < lastYear) ∧
    range = (midnightOf (Calendar.daysOf y 1 1), midnightOf (Calendar.daysOf (y + 1) 1 1))
  | some m, none => HasDate y m 1 ∧ ¬(y = lastYear ∧ m = 12) ∧
    range = (midnightOf (Calendar.daysOf y m 1), midnightOf (Calendar.daysOf y m 1 + Calendar.monthLength y m))
  | some m, some d => HasDate y m d ∧ ¬(y = lastYear ∧ m = 12 ∧ d = 31) ∧
    range = (midnightOf (Calendar.daysOf y m d), midnightOf (Calendar.daysOf y m d + 1))

theorem hasDate_first (hm : 1 ≤ m) (hm' : m ≤ 12) : HasDate y m 1 ↔ firstYear ≤ y ∧ y ≤ lastYear :=
  and_iff_left (valid_first y hm hm')

theorem dateRange_year (y : Int) (day : Option Nat) :
    (∃ range, dateRange y none day = .ok range ∧ RangeIs y none day range) ∨
      (∃ fault, dateRange y none day = .error fault ∧ Refused y none day fault) ∧ ∀ range, ¬RangeIs y none day range := by
  have hfirst : HasDate y 1 1 ↔ firstYear ≤ y ∧ y ≤ lastYear := hasDate_first (by omega) (by omega)
  have hnext : HasDate (y + 1) 1 1 ↔ firstYear ≤ y + 1 ∧ y + 1 ≤ lastYear := hasDate_first (by omega) (by omega)
  simp only [dateRange, orElse_midnight]
  by_cases hy : HasDate y 1 1
  · rw [if_pos hy]
    rw [hfirst] at hy
    by_cases hy' : HasDate (y + 1) 1 1
    · rw [if_pos hy']
      rw [hnext] at hy'
      exact .inl ⟨_, rfl, by omega, rfl⟩
    · rw [if_neg hy']
      rw [hnext] at hy'
      exact .inr ⟨⟨_, rfl, .inl ⟨_, rfl⟩⟩, fun range ⟨hyear, _⟩ => by omega⟩
  · rw [if_neg hy]
    rw [hfirst] at hy
    exact .inr ⟨⟨_, rfl, .inl ⟨_, rfl⟩⟩, fun range ⟨hyear, _⟩ => by omega⟩

theorem dateRange_month (y : Int) (m : Nat) :
    (∃ range, dateRange y (some m) none = .ok range ∧ RangeIs y (some m) none range) ∨
      (∃ fault, dateRange y (some m) none = .error fault ∧ Refused y (some m) none fault) ∧
        ∀ range, ¬RangeIs y (some m) none range := by
  simp only [dateRange, orElse_midnight]
  by_cases hdate : HasDate y m 1
  · have hdate' := hdate
    obtain ⟨⟨hfirst, hlast⟩, ⟨hm, hm'⟩, -⟩ := hdate'
    rw [if_pos hdate, bind_ok]
    by_cases hdecember : m = 12
    · subst hdecember
      have hnext : HasDate (y + 1) 1 1 ↔ firstYear ≤ y + 1 ∧ y + 1 ≤ lastYear := hasDate_first (by omega) (by omega)
      rw [if_pos rfl]
      by_cases hy' : HasDate (y + 1) 1 1
      · rw [if_pos hy', Calendar.daysOf_nextYear]
        rw [hnext] at hy'
        exact .inl ⟨_, rfl, hdate, by omega, rfl⟩
      · rw [if_neg hy']
        rw [hnext] at hy'
        exact .inr ⟨⟨_, rfl, .inl ⟨_, rfl⟩⟩, fun range ⟨_, hnot, _⟩ => by omega⟩
    · rw [if_neg hdecember, if_pos ((hasDate_first (by omega) (by omega)).mpr hdate.1),
        Calendar.daysOf_nextMonth hm (by omega)]
      exact .inl ⟨_, rfl, hdate, by omega, rfl⟩
  · rw [if_neg hdate]
    exact .inr ⟨⟨_, rfl, .inl ⟨_, rfl⟩⟩, fun range ⟨h, _⟩ => hdate h⟩

theorem dateRange_day (y : Int) (m d : Nat) :
    (∃ range, dateRange y (some m) (some d) = .ok range ∧ RangeIs y (some m) (some d) range) ∨
      (∃ fault, dateRange y (some m) (some d) = .error fault ∧ Refused y (some m) (some d) fault) ∧
        ∀ range, ¬RangeIs y (some m) (some d) range := by
  simp only [dateRange, orElse_midnight]
  by_cases hmonth : HasDate y m 1
  · rw [if_pos hmonth]
    by_cases hdate : HasDate y m d
    · rw [if_pos hdate, bind_ok, bind_ok, dayLater_midnight hdate.1.2 hdate.2]
      by_cases hlast : y = lastYear ∧ m = 12 ∧ d = 31
      · rw [if_pos hlast]
        refine .inr ⟨⟨.panic, rfl, .inr ⟨rfl, hlast.1, ?_, ?_⟩⟩, fun range ⟨_, hnot, _⟩ => hnot hlast⟩
        · rw [hlast.2.1]
        · rw [hlast.2.2]
      · rw [if_neg hlast]
        exact .inl ⟨_, rfl, hdate, hlast, rfl⟩
    · rw [if_neg hdate]
      exact .inr ⟨⟨_, rfl, .inl ⟨_, rfl⟩⟩, fun range ⟨h, _⟩ => hdate h⟩
  · rw [if_neg hmonth]
    refine .inr ⟨⟨_, rfl, .inl ⟨_, rfl⟩⟩, fun range ⟨⟨hy, hm, _⟩, _⟩ => hmonth ?_⟩
    exact (hasDate_first hm.1 hm.2).mpr hy

/-- There is the range, or a bad request, or the panic. -/
theorem dateRange_cases (y : Int) (month day : Option Nat) :
    (∃ range, dateRange y month day = .ok range ∧ RangeIs y month day range) ∨
      (∃ fault, dateRange y month day = .error fault ∧ Refused y month day fault) ∧ ∀ range, ¬RangeIs y month day range := by
  rcases month with _ | m
  · exact dateRange_year y day
  · rcases day with _ | d
    · exact dateRange_month y m
    · exact dateRange_day y m d

theorem dateRange_eq_ok : dateRange y month day = .ok range ↔ RangeIs y month day range := by
  have hunique {range range' : DateTime × DateTime} (h : RangeIs y month day range) (h' : RangeIs y month day range') :
      range = range' := by
    rcases month with _ | m
    · exact h.2.trans h'.2.symm
    · rcases day with _ | d
      · exact h.2.2.trans h'.2.2.symm
      · exact h.2.2.trans h'.2.2.symm
  rcases dateRange_cases y month day with ⟨range', hok, his⟩ | ⟨⟨fault, herror, -⟩, hnone⟩
  · rw [hok, Except.ok.injEq]
    exact ⟨fun heq => heq ▸ his, hunique his⟩
  · rw [herror]
    exact ⟨fun h => (by cases h), fun h => absurd h (hnone range)⟩

/-- A range has exactly the instants of its period, unless a day comes without a month. -/
theorem spans_iff (h : RangeIs y month day range) (hday : month = none → day = none) (t : DateTime) :
    Spans range t ↔ InPeriod y month day t := by
  rcases month with _ | m
  · obtain ⟨-, rfl⟩ := h
    rw [hday rfl, spans_days, ← Calendar.year_eq_iff]
    simp [InPeriod]
  · rcases day with _ | d
    · obtain ⟨hdate, -, rfl⟩ := h
      rw [spans_days, ← Calendar.month_eq_iff hdate.2.1.1 hdate.2.1.2]
      simp [InPeriod]
    · obtain ⟨hdate, -, rfl⟩ := h
      have hone : Calendar.daysOf y m d ≤ dayOf t ∧ dayOf t < Calendar.daysOf y m d + 1 ↔ Calendar.daysOf y m d = dayOf t := by
        omega
      rw [spans_days, hone, ← Calendar.date_eq_iff hdate.2]
      simp [InPeriod, Prod.ext_iff]

theorem dayOf_midnight (n : Int) : dayOf (midnightOf n) = n := by
  simp only [dayOf, midnightOf, dayNanos]
  omega

/-- The range of a year has instants of every day of the month. -/
theorem not_spans_day (h : RangeIs y none (some d) range) : ¬∀ t, Spans range t ↔ InPeriod y none (some d) t := by
  obtain ⟨-, rfl⟩ := h
  intro hall
  -- the first or the second of January is another day
  obtain ⟨k, hk, hk', hne⟩ : ∃ k, 1 ≤ k ∧ k ≤ 2 ∧ k ≠ d := by
    by_cases hd : d = 1
    · exact ⟨2, by omega, by omega, by omega⟩
    · exact ⟨1, by omega, by omega, Ne.symm hd⟩
  have hvalid : Calendar.Valid y 1 k := ⟨⟨le_rfl, by omega⟩, hk, Nat.le_trans hk' (by simp [Calendar.monthLength, Calendar.longest])⟩
  have hbounds := Calendar.daysOf_bounds hvalid
  have hin := (hall (midnightOf (Calendar.daysOf y 1 k))).mp (spans_days.mpr (by rwa [dayOf_midnight]))
  have hday : (Calendar.monthDay (Calendar.daysOf y 1 k)).2 = d := by
    rw [← dayOf_midnight (Calendar.daysOf y 1 k)]
    exact hin.2.2 d rfl
  rw [(Calendar.date_daysOf hvalid).2] at hday
  exact hne hday

end Ranges

/-! ### States -/

section States
variable {α : Type} {parse : List Char → Option α} {raw : Option String} {v v' : Option α} {req : AdminRequest} {admin : ModelAdmin}

theorem ReadsAs.eq (h : ReadsAs parse raw v) (h' : ReadsAs parse raw v') : v = v' := by
  cases raw with
  | none => exact h.trans h'.symm
  | some s =>
    obtain ⟨a, ha, rfl⟩ := h
    obtain ⟨a', ha', rfl⟩ := h'
    exact ha.symm.trans ha'

/-- A parameter is malformed, or is what it reads as. -/
theorem parseParam_cases (parse : List Char → Option α) (what : String) (raw : Option String) :
    ((∃ message, parseParam parse what raw = .error (.badRequest message)) ∧ ∀ v, ¬ReadsAs parse raw v) ∨
      ∃ v, parseParam parse what raw = .ok v ∧ ReadsAs parse raw v := by
  cases raw with
  | none => exact .inr ⟨none, rfl, rfl⟩
  | some s =>
    rw [parseParam]
    cases hparse : parse s.toList with
    | none => exact .inl ⟨⟨_, rfl⟩, fun v ⟨a, ha, _⟩ => by rw [hparse] at ha; cases ha⟩
    | some a => exact .inr ⟨some a, rfl, a, hparse, rfl⟩

/-- A request is bad because a parameter is malformed, or its state has the range of what its parameters read as. -/
theorem parse_cases (req : AdminRequest) (admin : ModelAdmin) :
    ((∃ message, parseChangelistQueryState req admin = .error (.error (.badRequest message))) ∧
      ∀ year month day, ¬Reading req year month day) ∨
    ∃ year month day, Reading req year month day ∧
      ((∃ fault, rangeOf admin year month day = .error fault ∧ parseChangelistQueryState req admin = .error fault) ∨
        ∃ range state, rangeOf admin year month day = .ok range ∧ parseChangelistQueryState req admin = .ok state ∧
          state.year = year ∧ state.month = month ∧ state.day = day ∧ state.dateRange = range) := by
  rcases parseParam_cases (Text.parseSigned (2 ^ 31)) "year" (req.query "year") with
    ⟨⟨message, hyear⟩, hnot⟩ | ⟨year, hyear, hyears⟩
  · exact .inl ⟨⟨message, by rw [parseChangelistQueryState, hyear]; rfl⟩, fun _ _ _ h => hnot _ h.year⟩
  rcases parseParam_cases (Text.parseUnsigned (2 ^ 32)) "month" (req.query "month") with
    ⟨⟨message, hmonth⟩, hnot⟩ | ⟨month, hmonth, hmonths⟩
  · exact .inl ⟨⟨message, by rw [parseChangelistQueryState, hyear, hmonth]; rfl⟩, fun _ _ _ h => hnot _ h.month⟩
  rcases parseParam_cases (Text.parseUnsigned (2 ^ 32)) "day" (req.query "day") with
    ⟨⟨message, hday⟩, hnot⟩ | ⟨day, hday, hdays⟩
  · exact .inl ⟨⟨message, by rw [parseChangelistQueryState, hyear, hmonth, hday]; rfl⟩, fun _ _ _ h => hnot _ h.day⟩
  refine .inr ⟨year, month, day, ⟨hyears, hmonths, hdays⟩, ?_⟩
  obtain ⟨f, hparse, hf⟩ : ∃ f : Option (DateTime × DateTime) → ChangelistQueryState,
      parseChangelistQueryState req admin = (rangeOf admin year month day >>= fun range => .ok (f range)) ∧
        ∀ range, (f range).year = year ∧ (f range).month = month ∧ (f range).day = day ∧ (f range).dateRange = range := by
    refine ⟨fun range => ⟨req.query "o", req.query "q", activeFilters req admin, year, month, day, range⟩, ?_,
      fun _ => ⟨rfl, rfl, rfl, rfl⟩⟩
    rw [parseChangelistQueryState, hyear, hmonth, hday]
    rfl
  cases hrange : rangeOf admin year month day with
  | error fault => exact .inl ⟨fault, rfl, by rw [hparse, hrange]; rfl⟩
  | ok range => exact .inr ⟨range, f range, rfl, by rw [hparse, hrange, bind_ok], hf range⟩

theorem rangeOf_some (hfield : admin.config.dateHierarchy.isSome) (y : Int) (month day : Option Nat) :
    rangeOf admin (some y) month day = (dateRange y month day).map some := by
  obtain ⟨field, hfield⟩ := Option.isSome_iff_exists.mp hfield
  simp [rangeOf, hfield]

theorem rangeOf_none {year : Option Int} {month day : Option Nat} (h : admin.config.dateHierarchy = none ∨ year = none) :
    rangeOf admin year month day = .ok none := by
  rcases h with h | rfl <;> simp [rangeOf, *]

/-- The range of a state is exact unless a day comes without a month, and there is no panic but on the last day. -/
theorem rangeExact_iff (req : AdminRequest) (admin : ModelAdmin) : RangeExact req admin ↔ DayCovered req admin := by
  rw [RangeExact]
  rcases parse_cases req admin with ⟨⟨message, hparse⟩, hnot⟩ | ⟨year, month, day, hreads, hparse⟩
  · rw [hparse]
    exact ⟨fun _ y month d _ h => absurd h (hnot _ _ _), fun _ => trivial⟩
  have hcovered : DayCovered req admin ↔ ∀ y d, admin.config.dateHierarchy.isSome → year = some y → day = some d →
      (month = none → y < firstYear ∨ lastYear ≤ y) ∧ ¬(y = lastYear ∧ month = some 12 ∧ d = 31) := by
    constructor
    · rintro h y d hfield rfl rfl
      exact h y month d hfield hreads
    · intro h y month' d hfield hreads'
      have hmonth := hreads.month.eq hreads'.month
      rw [← hmonth]
      exact h y d hfield (hreads.year.eq hreads'.year) (hreads.day.eq hreads'.day)
  rw [hcovered]
  by_cases hnone : admin.config.dateHierarchy = none ∨ year = none
  · rw [rangeOf_none hnone] at hparse
    rcases hparse with ⟨fault, h, _⟩ | ⟨range, state, h, hparse, rfl, rfl, rfl, hrange⟩
    · cases h
    · cases h
      rw [hparse]
      refine ⟨fun _ y d hfield hyear _ => ?_, fun _ => ⟨hreads, fun _ => hnone, fun range h => ?_⟩⟩
      · rcases hnone with h | h
        · rw [h] at hfield
          cases hfield
        · cases hyear.symm.trans h
      · cases hrange.symm.trans h
  · have hfield : admin.config.dateHierarchy.isSome := Option.isSome_iff_ne_none.mpr fun h => hnone (.inl h)
    obtain ⟨y, rfl⟩ := Option.ne_none_iff_exists'.mp fun h => hnone (.inr h)
    rw [rangeOf_some hfield] at hparse
    rcases dateRange_cases y month day with ⟨range, hok, his⟩ | ⟨⟨fault, herror, hrefused⟩, hnot⟩
    · rw [hok] at hparse
      rcases hparse with ⟨fault, h, _⟩ | ⟨range', state, h, hparse, hyear, hmonth, hday, hrange⟩
      · cases h
      cases h
      rw [hparse]
      constructor
      · rintro ⟨-, -, hexact⟩ y' d - h h'
        cases h
        obtain ⟨y', hy', hspans⟩ := hexact range hrange
        cases hyear.symm.trans hy'
        rw [hmonth, hday, h'] at hspans
        rw [h'] at his
        refine ⟨fun h => ?_, ?_⟩
        · rw [h] at his hspans
          exact absurd hspans (not_spans_day his)
        · rintro ⟨rfl, rfl, rfl⟩
          exact his.2.1 ⟨rfl, rfl, rfl⟩
      · intro hcov
        dsimp only
        rw [hyear, hmonth, hday]
        refine ⟨hreads, fun h => ?_, fun range' h => ?_⟩
        · cases hrange.symm.trans h
        · cases hrange.symm.trans h
          refine ⟨y, rfl, spans_iff his fun hm => ?_⟩
          rcases day with _ | d
          · rfl
          · subst hm
            have hyears := (hcov y d hfield rfl rfl).1 rfl
            have := his.1
            omega
    · rw [herror] at hparse
      rcases hparse with ⟨fault', h, hparse⟩ | ⟨range', state, h, _⟩
      · cases h
        rw [hparse]
        rcases hrefused with ⟨message, rfl⟩ | ⟨rfl, rfl, rfl, rfl⟩
        · refine ⟨fun _ y' d _ h h' => ?_, fun _ => trivial⟩
          cases h
          subst h'
          refine ⟨fun h => ?_, ?_⟩
          · subst h
            by_cases hyears : firstYear ≤ y ∧ y < lastYear
            · exact absurd ⟨hyears, rfl⟩ (hnot _)
            · omega
          · rintro ⟨rfl, rfl, rfl⟩
            have hpanic : dateRange lastYear (some 12) (some 31) = .error .panic := rfl
            cases herror.symm.trans hpanic
        · exact ⟨False.elim, fun h => (h lastYear 31 hfield rfl rfl).2 ⟨rfl, rfl, rfl⟩⟩
      · cases h

end States

/-! ### Values that are offered -/

/-- The year that a server gives for a year. Postgres has no year 0. -/
def serverYear : Dialect → Int → Int
  | .postgres, y => if y ≤ 0 then y - 1 else y
  | .sqlite, y => y

/-- The years of the dates that a server keeps. -/
def KeepsYear : Dialect → Int → Prop
  | .postgres, y => -4713 ≤ y ∧ y ≤ 294276
  | .sqlite, y => 0 ≤ y ∧ y ≤ 9999

/-- An instant that a row has in a column. -/
def Stored (S : AdminServer) (rows : List (Row Cell)) (column : String) (t : DateTime) : Prop :=
  ∃ r ∈ rows, S.present column r = true ∧ r.lookup column = some (.dateTime t)

/-- The column of a table has dates that the server keeps, and the server gives their parts in UTC. -/
structure HasDates (S : AdminServer) (rows : List (Row Cell)) (column : String) : Prop where
  dates : ∀ r ∈ rows, S.present column r = true →
    ∃ t, r.lookup column = some (.dateTime t) ∧ KeepsYear S.dialect (Calendar.year (dayOf t))
  year : ∀ t, S.datePart .year (.dateTime t) = some (serverYear S.dialect (Calendar.year (dayOf t)))
  month : ∀ t, S.datePart .month (.dateTime t) = some (Calendar.monthDay (dayOf t)).1
  day : ∀ t, S.datePart .day (.dateTime t) = some (Calendar.monthDay (dayOf t)).2

/-- The values that are offered for a state, of a column, lead to ranges with an instant of the column. -/
def OffersRows [Fmt] [UnquotedNames] (S : AdminServer) (w : World) (m : ModelMeta) (field : String) (rows : List (Row Cell))
    (column : String) : Prop :=
  ∀ year month values w', (dateHierarchyDrilldownValues m field year month).eval (AdminCall.exec S) w = (w', .ok values) →
    ∀ v ∈ values, ∃ range, linkRange year month v = .ok range ∧ ∃ t, Stored S rows column t ∧ Spans range t

/-- The server gives the year as it is, and chrono has the next one. -/
def WithinYears (S : AdminServer) (t : DateTime) : Prop :=
  (S.dialect = .postgres → 1 ≤ Calendar.year (dayOf t)) ∧ Calendar.year (dayOf t) < lastYear

section Values
variable {S : AdminServer} {w : World} {m : ModelMeta} {field table column : String}
  {rows : List (Row Cell)} {year : Option Int} {month : Option Nat} {t : DateTime} {v : Int}

/-- The value of an instant one level below a year and a month. -/
def partBelow (S : AdminServer) (t : DateTime) : Option Int → Option Nat → Int
  | none, _ => serverYear S.dialect (Calendar.year (dayOf t))
  | some _, none => (Calendar.monthDay (dayOf t)).1
  | some _, some _ => (Calendar.monthDay (dayOf t)).2

/-- The server has the year and the month for an instant. -/
def Below (S : AdminServer) (t : DateTime) (year : Option Int) (month : Option Nat) : Prop :=
  ∀ y ∈ year, serverYear S.dialect (Calendar.year (dayOf t)) = y ∧ ∀ n ∈ month, (Calendar.monthDay (dayOf t)).1 = n

theorem mem_inOrder {values : List (Option Int)} {a : Option Int} : a ∈ AdminServer.inOrder values ↔ a ∈ values := by
  rw [AdminServer.inOrder, List.mem_mergeSort, List.mem_dedup]

theorem HasDates.part_year (h : HasDates S rows column) {r : Row Cell} (ht : r.lookup column = some (.dateTime t)) :
    S.part .year column r = some (serverYear S.dialect (Calendar.year (dayOf t))) := by
  rw [AdminServer.part, ht]
  exact h.year t

theorem HasDates.part_month (h : HasDates S rows column) {r : Row Cell} (ht : r.lookup column = some (.dateTime t)) :
    S.part .month column r = some ((Calendar.monthDay (dayOf t)).1 : Int) := by
  rw [AdminServer.part, ht]
  exact h.month t

theorem HasDates.part_day (h : HasDates S rows column) {r : Row Cell} (ht : r.lookup column = some (.dateTime t)) :
    S.part .day column r = some ((Calendar.monthDay (dayOf t)).2 : Int) := by
  rw [AdminServer.part, ht]
  exact h.day t

/-- What the statement finds are the parts of the instants below the year and the month. -/
theorem mem_dateParts (h : HasDates S (w.tables table) column) {a : Option Int} :
    a ∈ S.dateParts w.tables table column year month ↔
      ∃ t, Stored S (w.tables table) column t ∧ Below S t year month ∧ a = some (partBelow S t year month) := by
  rcases year with _ | y
  · simp only [AdminServer.dateParts, mem_inOrder, List.mem_map, List.mem_filter]
    constructor
    · rintro ⟨r, ⟨hr, hpresent⟩, rfl⟩
      obtain ⟨t, ht, -⟩ := h.dates r hr hpresent
      exact ⟨t, ⟨r, hr, hpresent, ht⟩, fun _ h => (by cases h), h.part_year ht⟩
    · rintro ⟨t, ⟨r, hr, hpresent, ht⟩, -, rfl⟩
      exact ⟨r, ⟨hr, hpresent⟩, h.part_year ht⟩
  · rcases month with _ | n
    · simp only [AdminServer.dateParts, mem_inOrder, List.mem_map, List.mem_filter, beq_iff_eq]
      constructor
      · rintro ⟨r, ⟨⟨hr, hpresent⟩, hy⟩, rfl⟩
        obtain ⟨t, ht, -⟩ := h.dates r hr hpresent
        rw [h.part_year ht, Option.some.injEq] at hy
        refine ⟨t, ⟨r, hr, hpresent, ht⟩, fun y' h => ?_, h.part_month ht⟩
        cases h
        exact ⟨hy, fun _ h => (by cases h)⟩
      · rintro ⟨t, ⟨r, hr, hpresent, ht⟩, hbelow, rfl⟩
        refine ⟨r, ⟨⟨hr, hpresent⟩, ?_⟩, h.part_month ht⟩
        rw [h.part_year ht, (hbelow y rfl).1]
    · simp only [AdminServer.dateParts, mem_inOrder, List.mem_map, List.mem_filter, Bool.and_eq_true, beq_iff_eq]
      constructor
      · rintro ⟨r, ⟨⟨hr, hpresent⟩, hy, hn⟩, rfl⟩
        obtain ⟨t, ht, -⟩ := h.dates r hr hpresent
        rw [h.part_year ht, Option.some.injEq] at hy
        rw [h.part_month ht, Option.some.injEq] at hn
        refine ⟨t, ⟨r, hr, hpresent, ht⟩, fun y' h => ?_, h.part_day ht⟩
        cases h
        refine ⟨hy, fun n' h => ?_⟩
        cases h
        exact Int.ofNat.inj hn
      · rintro ⟨t, ⟨r, hr, hpresent, ht⟩, hbelow, rfl⟩
        refine ⟨r, ⟨⟨hr, hpresent⟩, ?_, ?_⟩, h.part_day ht⟩
        · rw [h.part_year ht, (hbelow y rfl).1]
        · rw [h.part_month ht, (hbelow y rfl).2 n rfl]

theorem HasDates.keeps (h : HasDates S rows column) (ht : Stored S rows column t) :
    KeepsYear S.dialect (Calendar.year (dayOf t)) := by
  obtain ⟨r, hr, hpresent, hlookup⟩ := ht
  obtain ⟨t', ht', hkeeps⟩ := h.dates r hr hpresent
  cases hlookup.symm.trans ht'
  exact hkeeps

/-- The parts fit in an `i32`. -/
theorem bmod_partBelow (hkeeps : KeepsYear S.dialect (Calendar.year (dayOf t))) :
    (partBelow S t year month).bmod (2 ^ 32) = partBelow S t year month := by
  obtain ⟨⟨-, hm⟩, -, hd⟩ := (Calendar.daysOf_date (dayOf t)).1
  have hd' := Nat.le_trans hd (Nat.le_trans (Calendar.monthLength_le _ _) (Calendar.longest_le _))
  have hbounds : -100000000 ≤ partBelow S t year month ∧ partBelow S t year month ≤ 100000000 := by
    rcases year with _ | y
    · simp only [partBelow]
      cases hdialect : S.dialect with
      | postgres =>
        rw [hdialect] at hkeeps
        simp only [KeepsYear] at hkeeps
        simp only [serverYear]
        split <;> omega
      | sqlite =>
        rw [hdialect] at hkeeps
        simp only [KeepsYear] at hkeeps
        simp only [serverYear]
        omega
    · rcases month with _ | n <;> simp only [partBelow] <;> omega
  exact Int.bmod_eq_of_le (by omega) (by omega)

theorem serverYear_eq (h : WithinYears S t) :
    serverYear S.dialect (Calendar.year (dayOf t)) = Calendar.year (dayOf t) := by
  cases hdialect : S.dialect with
  | postgres =>
    have := h.1 hdialect
    exact if_neg (by omega)
  | sqlite => rfl

/-- The link of an instant's own value leads to a range that has it. -/
theorem leads_of_within (hkeeps : KeepsYear S.dialect (Calendar.year (dayOf t))) (h : WithinYears S t)
    (hbelow : Below S t year month) :
    ∃ range, linkRange year month (partBelow S t year month) = .ok range ∧ Spans range t := by
  have hyears : firstYear ≤ Calendar.year (dayOf t) ∧ Calendar.year (dayOf t) < lastYear := by
    refine ⟨?_, h.2⟩
    cases hdialect : S.dialect with
    | postgres =>
      rw [hdialect] at hkeeps
      simp only [KeepsYear] at hkeeps
      simp only [firstYear]
      omega
    | sqlite =>
      rw [hdialect] at hkeeps
      simp only [KeepsYear] at hkeeps
      simp only [firstYear]
      omega
  have hvalid := (Calendar.daysOf_date (dayOf t)).1
  have hlast : ¬Calendar.year (dayOf t) = lastYear := by omega
  have hleads {month day : Option Nat} (hrange : ∃ range, RangeIs (Calendar.year (dayOf t)) month day range)
      (hday : month = none → day = none) (hin : InPeriod (Calendar.year (dayOf t)) month day t) :
      ∃ range, dateRange (Calendar.year (dayOf t)) month day = .ok range ∧ Spans range t := by
    obtain ⟨range, hrange⟩ := hrange
    exact ⟨range, dateRange_eq_ok.mpr hrange, (spans_iff hrange hday t).mpr hin⟩
  have hyear := serverYear_eq h
  rcases year with _ | y
  · simp only [linkRange, partBelow, hyear]
    exact hleads ⟨_, hyears, rfl⟩ (fun _ => rfl) ⟨rfl, fun _ h => (by cases h), fun _ h => (by cases h)⟩
  obtain ⟨hy, hmonth⟩ := hbelow y rfl
  rw [hyear] at hy
  subst hy
  rcases month with _ | n
  · simp only [linkRange, partBelow, Int.toNat_natCast]
    refine hleads ⟨_, ⟨⟨hyears.1, hyears.2.le⟩, valid_first _ hvalid.1.1 hvalid.1.2⟩, fun h => hlast h.1, rfl⟩
      (fun h => by cases h) ⟨rfl, fun n h => ?_, fun _ h => (by cases h)⟩
    exact Option.some.inj h
  · have hn := hmonth n rfl
    subst hn
    simp only [linkRange, partBelow, Int.toNat_natCast]
    refine hleads ⟨_, ⟨⟨hyears.1, hyears.2.le⟩, hvalid⟩, fun h => hlast h.1, rfl⟩ (fun h => by cases h)
      ⟨rfl, fun n h => ?_, fun d h => ?_⟩
    · exact Option.some.inj h
    · exact Option.some.inj h

variable [Fmt] [UnquotedNames]

/-- The values that are offered. -/
theorem offered_iff (hnames : UnquotedNames.resolve m.tableName field = .ok (table, column))
    (h : HasDates S (w.tables table) column) :
    OffersRows S w m field (w.tables table) column ↔ ∀ year month t, Stored S (w.tables table) column t → Below S t year month →
      ∃ range, linkRange year month (partBelow S t year month) = .ok range ∧
        ∃ t, Stored S (w.tables table) column t ∧ Spans range t := by
  have hvalues (year : Option Int) (month : Option Nat) :
      (dateHierarchyDrilldownValues m field year month).eval (AdminCall.exec S) w =
        (w, .ok (((S.dateParts w.tables table column year month).filterMap id).map (·.bmod (2 ^ 32)))) := by
    have hask : (ask (.dateParts m.tableName field year month) : Handler (List (Option Int))).eval (AdminCall.exec S) w =
        (w, .ok (S.dateParts w.tables table column year month)) := by
      simp only [ask, Program.eval, AdminCall.exec, hnames]
      rfl
    rw [dateHierarchyDrilldownValues, Fallible.eval_bind_ok hask]
    rfl
  constructor
  · intro hoffers year month t ht hbelow
    refine hoffers year month _ _ (hvalues year month) _ (List.mem_map.mpr ⟨partBelow S t year month, ?_, ?_⟩)
    · exact List.mem_filterMap.mpr ⟨_, (mem_dateParts h).mpr ⟨t, ht, hbelow, rfl⟩, rfl⟩
    · exact bmod_partBelow (h.keeps ht)
  · intro hall year month values w' heval v hv
    rw [hvalues] at heval
    cases heval
    obtain ⟨v, hv', rfl⟩ := List.mem_map.mp hv
    obtain ⟨a, hv', hid⟩ := List.mem_filterMap.mp hv'
    obtain ⟨t, ht, hbelow, rfl⟩ := (mem_dateParts h).mp hv'
    cases hid
    rw [bmod_partBelow (h.keeps ht)]
    exact hall year month t ht hbelow

/-- Every value that is offered leads to a range with a row, when the server gives the years of the rows as they are and
    chrono has the years after them. -/
theorem offersRows_iff (hnames : UnquotedNames.resolve m.tableName field = .ok (table, column))
    (h : HasDates S (w.tables table) column) :
    OffersRows S w m field (w.tables table) column ↔ ∀ t, Stored S (w.tables table) column t → WithinYears S t := by
  rw [offered_iff hnames h]
  constructor
  · intro hall
    -- the link of a year is of the same year, or of the year before
    have hleads {t : DateTime} (ht : Stored S (w.tables table) column t) :
        serverYear S.dialect (Calendar.year (dayOf t)) < lastYear ∧ ∃ t', Stored S (w.tables table) column t' ∧
          Calendar.year (dayOf t') = serverYear S.dialect (Calendar.year (dayOf t)) := by
      obtain ⟨range, hrange, t', ht', hspans⟩ := hall none none t ht fun _ h => by cases h
      have his : RangeIs (serverYear S.dialect (Calendar.year (dayOf t))) none none range := dateRange_eq_ok.mp hrange
      exact ⟨his.1.2, t', ht', ((spans_iff his (fun _ => rfl) t').mp hspans).1⟩
    intro t ht
    cases hdialect : S.dialect with
    | sqlite =>
      have hyear := (hleads ht).1
      rw [hdialect] at hyear
      exact ⟨fun h => (by rw [hdialect] at h; cases h), hyear⟩
    | postgres =>
      have hkeeps {t : DateTime} (ht : Stored S (w.tables table) column t) : -4713 ≤ Calendar.year (dayOf t) := by
        have hkeeps := h.keeps ht
        rw [hdialect] at hkeeps
        exact hkeeps.1
      -- no row is in the first years, and a row before the year 1 needs one in the year before
      have hlater (n : Nat) : ∀ t, Stored S (w.tables table) column t → Calendar.year (dayOf t) = -4713 + n →
          1 ≤ Calendar.year (dayOf t) := by
        induction n with
        | zero =>
          intro t ht hy
          obtain ⟨t', ht', hbefore⟩ := (hleads ht).2
          rw [hdialect, serverYear, if_pos (by omega)] at hbefore
          have := hkeeps ht'
          omega
        | succ n ih =>
          intro t ht hy
          by_contra hnot
          obtain ⟨t', ht', hbefore⟩ := (hleads ht).2
          rw [hdialect, serverYear, if_pos (by omega)] at hbefore
          have := ih t' ht' (by omega)
          omega
      have hbounds := hkeeps ht
      have hone := hlater (Calendar.year (dayOf t) + 4713).toNat t ht (by omega)
      have hyear := (hleads ht).1
      rw [hdialect, serverYear, if_neg (by omega)] at hyear
      exact ⟨fun _ => hone, hyear⟩
  · intro hall year month t ht hbelow
    obtain ⟨range, hrange, hspans⟩ := leads_of_within (h.keeps ht) (hall t ht) hbelow
    exact ⟨range, hrange, t, ht, hspans⟩

end Values

/-- A range is exact unless a day comes without a month, and the request panics on the last day only; the values that are
    offered lead to rows unless a year is before the year 1 on Postgres, or chrono does not have the next one. -/
theorem date_ranges [Fmt] [UnquotedNames] (S : AdminServer) :
    (∀ req admin, RangeExact req admin ↔ DayCovered req admin) ∧
    ∀ w m field table column, UnquotedNames.resolve m.tableName field = .ok (table, column) →
      HasDates S (w.tables table) column →
      (OffersRows S w m field (w.tables table) column ↔ ∀ t, Stored S (w.tables table) column t → WithinYears S t) :=
  ⟨rangeExact_iff, fun _ _ _ _ _ hnames h => offersRows_iff hnames h⟩

section Events
attribute [local instance] CaseMap.ascii Fmt.decimal verbatim

/-- A server that reads dates in UTC. -/
def datedServer : AdminServer where
  toServer := plainServer
  datePart
    | .year, .dateTime t => some (serverYear .postgres (Calendar.year (dayOf t)))
    | .month, .dateTime t => some (Calendar.monthDay (dayOf t)).1
    | .day, .dateTime t => some (Calendar.monthDay (dayOf t)).2
    | _, _ => none
  text _ := none
  refusesLog _ := none
  equal_i64 := plainAdminServer.equal_i64
  equal_unique := plainAdminServer.equal_unique
  complete_given _ _ _ _ _ h := h

/-- The first event of 1970. -/
def eventRow : Row Cell := [("id", .i64 1), ("created_at", .dateTime ⟨0⟩)]

def createdAt : FieldMeta := { name := "created_at", columnName := "created_at", kind := .dateTime }

def eventMeta : ModelMeta where
  structName := "Event"
  appLabel := "site"
  tableName := "site_event"
  fields := [noteId, createdAt]

theorem eventMeta_names : (memberNames eventMeta).Nodup ∧
    (eventMeta.fields.map (·.columnName) ++ eventMeta.relations.map (·.fieldName)).Nodup ∧
      ∀ name ∈ memberNames eventMeta, splitFieldLookup name = (name, "eq") := by
  refine ⟨?_, ?_, ?_⟩ <;> decide

/-- The events have a date hierarchy. -/
def eventAdmin : ModelAdmin where
  info := eventMeta
  pk := noteId
  primary := rfl
  objects := {}
  fieldNames := ["id", "created_at"]
  fieldValues row := .ok (row.map fun (name, cell) => (name, noteValue cell))
  config := { dateHierarchy := some "created_at" }
  names_nodup := eventMeta_names.1
  columns_nodup := eventMeta_names.2.1
  names_plain := eventMeta_names.2.2

def events : World := onlyRow "site_event" eventRow

theorem events_eq {r : Row Cell} (h : r ∈ events.tables "site_event") : r = eventRow := by
  have hrows : events.tables "site_event" = [eventRow] := rfl
  rw [hrows] at h
  exact List.mem_singleton.mp h

theorem event_dates : HasDates datedServer (events.tables "site_event") "created_at" where
  dates r hr _ := by
    rw [events_eq hr]
    exact ⟨⟨0⟩, rfl, by decide, by decide⟩
  year _ := rfl
  month _ := rfl
  day _ := rfl

/-- The years, months and days that are offered lead to the event. -/
theorem event_offered : OffersRows datedServer events eventMeta "created_at" (events.tables "site_event") "created_at" := by
  refine ((date_ranges datedServer).2 _ _ _ "site_event" "created_at" rfl event_dates).mpr fun t ⟨r, hr, _, ht⟩ => ?_
  rw [events_eq hr] at ht
  obtain rfl : DateTime.mk 0 = t := Cell.dateTime.inj (Option.some.inj ht)
  exact ⟨fun _ => by decide, by decide⟩

/-- A request with the parameters of a date. -/
def dateRequest (date : List (String × String)) : AdminRequest := { noteRequest [] with query := fun name => date.lookup name }

/-- A day without a month has the range of the year, and the last day of chrono panics. -/
theorem day_inexact : ¬RangeExact (dateRequest [("year", "2024"), ("day", "5")]) eventAdmin ∧
    ¬RangeExact (dateRequest [("year", "262142"), ("month", "12"), ("day", "31")]) eventAdmin := by
  constructor
  · intro h
    rw [rangeExact_iff] at h
    have hreads : Reading (dateRequest [("year", "2024"), ("day", "5")]) (some 2024) none (some 5) :=
      { year := ⟨2024, by decide +kernel, rfl⟩, month := rfl, day := ⟨5, by decide +kernel, rfl⟩ }
    exact absurd ((h 2024 none 5 rfl hreads).1 rfl) (by decide)
  · intro h
    rw [rangeExact_iff] at h
    have hreads : Reading (dateRequest [("year", "262142"), ("month", "12"), ("day", "31")]) (some 262142) (some 12) (some 31) :=
      { year := ⟨262142, by decide +kernel, rfl⟩, month := ⟨12, by decide +kernel, rfl⟩, day := ⟨31, by decide +kernel, rfl⟩ }
    exact (h 262142 (some 12) 31 rfl hreads).2 ⟨rfl, rfl, rfl⟩

end Events

end Djangors.Admin
