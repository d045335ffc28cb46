import Djangors.Tasks.Schedules
import Djangors.Theorems.RecurringTicks

/-! # What a schedule means

The crate numbers the weekdays from 1 for Sunday, and wants both day fields to agree. Every day of a year falls on
every weekday, so the difference shows unless the fields name the same days either way. -/

namespace Djangors.Tasks
open Calendar

/-! ### Conditions -/

namespace CronExpression
variable (e : CronExpression)

/-- The day comes in one of the months. -/
def Comes (day : Nat) : Prop :=
  1 ≤ day ∧ ∃ month, 1 ≤ month ∧ month ≤ 12 ∧ day ≤ longest month ∧ e.month.names 1 12 month = true

/-- The day fields name the same days under both rules: when one of them starts with a star, the weekdays have to be
    the same under both numberings (or no day of the month ever comes); otherwise both fields have to name every day. -/
def SameDays : Prop :=
  if (e.dayOfMonth.isStar || e.dayOfWeek.isStar) = true then
    (∃ day, e.Comes day ∧ e.dayOfMonth.names 1 31 day = true) → ∀ weekday < 7, e.standardWeekday weekday = e.crateWeekday weekday
  else (∀ day, e.Comes day → e.dayOfMonth.names 1 31 day = true) ∧ ∀ weekday < 7, e.crateWeekday weekday = true

end CronExpression

section Schedules
variable {Schedule : Type} (cron : Cron Schedule) (first last : DateTime) (text : String) (e : CronExpression)

/-- The schedule of the text means what standard cron means: it is accepted when it is valid, and the occurrences
    that ticks step through are those of the standard. -/
structure Standard : Prop where
  accepted : e.valid 0 = true → ∃ schedule, parseSchedule cron text = .ok schedule
  steps : ∀ schedule, parseSchedule cron text = .ok schedule → ∀ row : RecurringTask, row.cronExpr = text →
    first ≤ row.nextRunAt → ∀ u ≤ last, (fireRow cron row = .ok ⟨row, u⟩ ↔ IsNext e.standardOccurs row.nextRunAt u)

end Schedules

/-! ### Fields -/

section Fields
variable {low high n : Nat} {item : CronItem} {field : CronField} {e : CronExpression}

/-- Numbers that are no 0 are numbers from 1 on. -/
theorem CronItem.valid_one : item.valid 1 high = true ↔ item.valid 0 high = true ∧ item.startsAtZero = false := by
  cases item <;> simp [CronItem.valid, CronItem.startsAtZero] <;> omega

theorem CronField.valid_one : field.valid 1 high = true ↔
    field.valid 0 high = true ∧ ∀ item ∈ field, item.startsAtZero = false := by
  simp only [CronField.valid, Bool.and_eq_true, List.all_eq_true, CronItem.valid_one]
  constructor
  · exact fun h => ⟨⟨h.1, fun item hitem => (h.2 item hitem).1⟩, fun item hitem => (h.2 item hitem).2⟩
  · exact fun h => ⟨h.1.1, fun item hitem => ⟨h.1.2 item hitem, h.2 item hitem⟩⟩

theorem CronExpression.valid_one : e.valid 1 = true ↔
    e.valid 0 = true ∧ ∀ item ∈ e.dayOfWeek, item.startsAtZero = false := by
  simp only [CronExpression.valid, Bool.and_eq_true, CronField.valid_one, and_assoc]

/-- A valid item names a number between the bounds. -/
theorem CronItem.exists_names (hle : low ≤ high) (h : item.valid low high = true) :
    ∃ n, low ≤ n ∧ n ≤ high ∧ item.names low high n = true := by
  cases item with
  | star => exact ⟨low, by simp [CronItem.names, hle]⟩
  | starStep step => exact ⟨low, by simp [CronItem.names, hle]⟩
  | point n =>
    simp only [CronItem.valid, Bool.and_eq_true, decide_eq_true_eq] at h
    exact ⟨n, h.1, h.2, by simp [CronItem.names]⟩
  | range first last =>
    simp only [CronItem.valid, Bool.and_eq_true, decide_eq_true_eq] at h
    exact ⟨first, by omega, by omega, by simp [CronItem.names, h]⟩
  | rangeStep first last step =>
    simp only [CronItem.valid, Bool.and_eq_true, decide_eq_true_eq] at h
    exact ⟨first, by omega, by omega, by simp [CronItem.names, h]⟩

theorem CronField.exists_names (hle : low ≤ high) (h : field.valid low high = true) :
    ∃ n, low ≤ n ∧ n ≤ high ∧ field.names low high n = true := by
  simp only [CronField.valid, Bool.and_eq_true, Bool.not_eq_true', List.isEmpty_eq_false_iff, List.all_eq_true] at h
  obtain ⟨item, hitem⟩ := List.exists_mem_of_ne_nil _ h.1
  obtain ⟨n, hlow, hhigh, hnames⟩ := CronItem.exists_names hle (h.2 item hitem)
  exact ⟨n, hlow, hhigh, List.any_eq_true.mpr ⟨item, hitem, hnames⟩⟩

end Fields

/-! ### Days -/

section Days
variable {e : CronExpression}

/-- Where the fields name the same days, the same minutes are matched. -/
theorem occurs_of_sameDays (same : e.SameDays) (t : DateTime) : e.crateOccurs t ↔ e.standardOccurs t := by
  have hdate := monthDay_bounds (t.nanos / 60000000000 / 1440)
  have hweekday := weekday_lt (t.nanos / 60000000000 / 1440)
  have hday : e.month.names 1 12 (monthDay (t.nanos / 60000000000 / 1440)).1 = true →
      e.crateDay (monthDay (t.nanos / 60000000000 / 1440)).2 (weekday (t.nanos / 60000000000 / 1440)) =
        e.standardDay (monthDay (t.nanos / 60000000000 / 1440)).2 (weekday (t.nanos / 60000000000 / 1440)) := by
    intro hmonth
    generalize weekday (t.nanos / 60000000000 / 1440) = w at hweekday ⊢
    have hcomes : e.Comes (monthDay (t.nanos / 60000000000 / 1440)).2 :=
      ⟨hdate.2.2.1, _, hdate.1, hdate.2.1, hdate.2.2.2, hmonth⟩
    generalize (monthDay (t.nanos / 60000000000 / 1440)).2 = day at hcomes ⊢
    rw [CronExpression.SameDays] at same
    rw [CronExpression.crateDay, CronExpression.standardDay]
    split at same
    · rename_i hstar
      rw [if_pos hstar]
      cases hnames : e.dayOfMonth.names 1 31 day with
      | false => rfl
      | true => rw [same ⟨day, hcomes, hnames⟩ w hweekday]
    · rename_i hstar
      rw [if_neg hstar, same.1 day hcomes, same.2 w hweekday]
      rfl
  simp only [CronExpression.crateOccurs, CronExpression.standardOccurs, CronExpression.occursBy, Bool.and_eq_true]
  exact and_congr_right fun h => by rw [hday h.2]

/-- A minute of a day, counted from 1970. -/
def minuteOf (day hour minute : Nat) : DateTime := ⟨((day * 24 + hour) * 60 + minute : Nat) * 60000000000⟩

def march2003 : DateTime := minuteOf 12112 0 0

def january2031 : DateTime := minuteOf 22280 0 0

theorem occursBy_minuteOf (dayRule : Nat → Nat → Bool) {day hour minute : Nat} (hhour : hour ≤ 23) (hminute : minute ≤ 59)
    (hhour' : e.hour.names 0 23 hour = true) (hminute' : e.minute.names 0 59 minute = true)
    (hmonth : e.month.names 1 12 (monthDay day).1 = true) :
    e.occursBy dayRule (minuteOf day hour minute) = dayRule (monthDay day).2 (weekday day) := by
  have hnanos : (minuteOf day hour minute).nanos = ((day * 24 + hour) * 60 + minute : Nat) * 60000000000 := rfl
  have hminutes : (minuteOf day hour minute).nanos / 60000000000 = ((day * 24 + hour) * 60 + minute : Nat) := by
    omega
  have hzero : (minuteOf day hour minute).nanos % 60000000000 = 0 := by
    omega
  have hm : ((((day * 24 + hour) * 60 + minute : Nat) : Int) % 60).toNat = minute := by omega
  have hh : ((((day * 24 + hour) * 60 + minute : Nat) : Int) / 60 % 24).toNat = hour := by omega
  have hd : (((day * 24 + hour) * 60 + minute : Nat) : Int) / 1440 = (day : Nat) := by omega
  simp only [CronExpression.occursBy, hminutes, hzero, hm, hh, hd, hhour', hminute', hmonth]
  simp

/-- Where the same minutes are matched on the days of some years, the fields name the same days. -/
theorem sameDays_of_occurs (valid : e.valid 0 = true)
    (same : ∀ day hour minute : Nat, 12112 ≤ day → day < 22280 → hour ≤ 23 → minute ≤ 59 →
      (e.crateOccurs (minuteOf day hour minute) ↔ e.standardOccurs (minuteOf day hour minute))) : e.SameDays := by
  simp only [CronExpression.valid, Bool.and_eq_true] at valid
  obtain ⟨⟨⟨⟨hminutes, hhours⟩, -⟩, hmonths⟩, hweekdays⟩ := valid
  obtain ⟨minute, -, hminute, hminute'⟩ := CronField.exists_names (by omega) hminutes
  obtain ⟨hour, -, hhour, hhour'⟩ := CronField.exists_names (by omega) hhours
  have hrule {day w : Nat} (hcomes : e.Comes day) (hw : w < 7) : e.crateDay day w = e.standardDay day w := by
    obtain ⟨hday, month, hlow, hhigh, hlongest, hmonth⟩ := hcomes
    obtain ⟨n, hfrom, hto, hdate, hweekday⟩ := exists_day hlow hhigh hday hlongest hw
    have h := same n hour minute hfrom hto hhour hminute
    have hmonth' : e.month.names 1 12 (monthDay n).1 = true := by rw [hdate]; exact hmonth
    rw [CronExpression.crateOccurs, CronExpression.standardOccurs, occursBy_minuteOf _ hhour hminute hhour' hminute' hmonth',
      occursBy_minuteOf _ hhour hminute hhour' hminute' hmonth', hdate, hweekday] at h
    exact Bool.eq_iff_iff.mpr h
  rw [CronExpression.SameDays]
  split
  · rename_i hstar
    rintro ⟨day, hcomes, hnames⟩ w hw
    have h := hrule hcomes hw
    rw [CronExpression.crateDay, CronExpression.standardDay, if_pos hstar, hnames] at h
    simpa using h.symm
  · rename_i hstar
    have hrule' {day w : Nat} (hcomes : e.Comes day) (hw : w < 7)
        (h : (e.dayOfMonth.names 1 31 day || e.standardWeekday w) = true) :
        e.dayOfMonth.names 1 31 day = true ∧ e.crateWeekday w = true := by
      have heq := hrule hcomes hw
      rw [CronExpression.crateDay, CronExpression.standardDay, if_neg hstar, h] at heq
      simpa using heq
    -- one weekday is named, so every day that comes has to be
    obtain ⟨n, -, hn, hnames⟩ := CronField.exists_names (by omega) hweekdays
    obtain ⟨w, hw, hweekday⟩ : ∃ w < 7, e.standardWeekday w = true := by
      by_cases hseven : n = 7
      · subst hseven
        exact ⟨0, by omega, by simp [CronExpression.standardWeekday, hnames]⟩
      · exact ⟨n, by omega, by simp [CronExpression.standardWeekday, hnames]⟩
    have hdays : ∀ day, e.Comes day → e.dayOfMonth.names 1 31 day = true := fun day hcomes =>
      (hrule' hcomes hw (by simp [hweekday])).1
    obtain ⟨month, hlow, hhigh, hmonth⟩ := CronField.exists_names (by omega) hmonths
    have hlongest : 1 ≤ longest month := by
      unfold longest
      split
      · omega
      · split <;> omega
    have hfirst : e.Comes 1 := ⟨Nat.le_refl 1, month, hlow, hhigh, hlongest, hmonth⟩
    exact ⟨hdays, fun w hw => (hrule' hfirst hw (by simp [hdays 1 hfirst])).2⟩

end Days

/-! ### Steps -/

/-- What comes next after the nanosecond before a time is the time itself, if it occurs. -/
theorem isNext_before {occurs : DateTime → Prop} {u : DateTime} : IsNext occurs ⟨u.nanos - 1⟩ u ↔ occurs u := by
  refine ⟨fun h => h.1, fun h => ⟨h, ?_, fun v _ hv => ?_⟩⟩
  · change u.nanos - 1 < u.nanos
    omega
  · change u.nanos ≤ v.nanos
    change u.nanos - 1 < v.nanos at hv
    omega

section Meaning
variable {Schedule : Type} {cron : Cron Schedule} {first last : DateTime} {text : String} {e : CronExpression}

/-- `parse_schedule` finds the five fields, and leaves the rest to the crate. -/
theorem parseSchedule_written (written : e.WrittenAs text) : parseSchedule cron text = cron.fromStr ("0 " ++ text) := by
  rw [parseSchedule, written]
  rfl

/-- A tick steps from the time of a row to the occurrence that the crate gives. -/
theorem fireRow_next_iff {schedule : Schedule} (row : RecurringTask) {u : DateTime}
    (parsed : parseSchedule cron row.cronExpr = .ok schedule) :
    fireRow cron row = .ok ⟨row, u⟩ ↔ cron.after schedule row.nextRunAt = some u := by
  rw [fireRow, parsed]
  cases h : cron.after schedule row.nextRunAt with
  | none => simp [h]
  | some next => simp [h]

theorem standard_of_sameDays (written : e.WrittenAs text) (reads : cron.Reads first last text e)
    (h : e.valid 0 = true → (∀ item ∈ e.dayOfWeek, item.startsAtZero = false) ∧ e.SameDays) :
    Standard cron first last text e := by
  constructor <;> rw [parseSchedule_written written]
  · exact fun valid => reads.accepts.mpr (CronExpression.valid_one.mpr ⟨valid, (h valid).1⟩)
  · rintro schedule hschedule row rfl ht u hu
    have hvalid := (CronExpression.valid_one.mp (reads.accepts.mp ⟨schedule, hschedule⟩)).1
    rw [fireRow_next_iff row ((parseSchedule_written written).trans hschedule), reads.after schedule hschedule _ u ht hu]
    exact isNext_congr (occurs_of_sameDays (h hvalid).2)

theorem sameDays_of_standard (written : e.WrittenAs text) (reads : cron.Reads first last text e)
    (hfirst : first < march2003) (hlast : january2031 ≤ last) (standard : Standard cron first last text e)
    (valid : e.valid 0 = true) : (∀ item ∈ e.dayOfWeek, item.startsAtZero = false) ∧ e.SameDays := by
  obtain ⟨schedule, hparse⟩ := standard.accepted valid
  have hschedule : cron.fromStr ("0 " ++ text) = .ok schedule := by rw [← parseSchedule_written written, hparse]
  refine ⟨(CronExpression.valid_one.mp (reads.accepts.mp ⟨schedule, hschedule⟩)).2, sameDays_of_occurs valid ?_⟩
  intro day hour minute hday hday' hhour hminute
  have hfrom : first ≤ ⟨(minuteOf day hour minute).nanos - 1⟩ := by
    change first.nanos ≤ (minuteOf day hour minute).nanos - 1
    change first.nanos < (minuteOf 12112 0 0).nanos at hfirst
    simp only [minuteOf] at hfirst ⊢
    omega
  have hto : minuteOf day hour minute ≤ last := by
    change (minuteOf day hour minute).nanos ≤ last.nanos
    change (minuteOf 22280 0 0).nanos ≤ last.nanos at hlast
    simp only [minuteOf] at hlast ⊢
    omega
  generalize minuteOf day hour minute = u at hfrom hto
  have hcrate := reads.after schedule hschedule ⟨u.nanos - 1⟩ u hfrom hto
  let row : RecurringTask := ⟨0, "", "", text, ⟨u.nanos - 1⟩, none, true⟩
  have hsteps := (fireRow_next_iff row hparse).symm.trans (standard.steps schedule hparse row rfl hfrom u hto)
  exact (isNext_before.symm.trans hcrate.symm).trans (hsteps.trans isNext_before)

end Meaning

/-! ### Every minute, and every Monday -/

def always : CronExpression := ⟨[.star], [.star], [.star], [.star], [.star]⟩

theorem names_star {low high n : Nat} : CronField.names low high [.star] n = true ↔ low ≤ n ∧ n ≤ high := by
  simp [CronField.names, CronItem.names]

theorem always_occurs {t : DateTime} : always.crateOccurs t ↔ 60000000000 ∣ t.nanos := by
  have hdate := monthDay_bounds (t.nanos / 60000000000 / 1440)
  have hweekday := weekday_lt (t.nanos / 60000000000 / 1440)
  have hday : (monthDay (t.nanos / 60000000000 / 1440)).2 ≤ 31 := by
    have h := hdate.2.2.2
    unfold longest at h
    split at h
    · omega
    · split at h <;> omega
  rw [CronExpression.crateOccurs, CronExpression.occursBy]
  simp only [Bool.and_eq_true, beq_iff_eq, CronExpression.crateDay, CronExpression.crateWeekday, always, names_star]
  constructor
  · intro h
    exact Int.dvd_of_emod_eq_zero h.1.1.1.1
  · intro h
    exact ⟨⟨⟨⟨Int.emod_eq_zero_of_dvd h, by omega⟩, by omega⟩, by omega⟩, by omega⟩

theorem always_written : always.WrittenAs "* * * * *" := by
  unfold CronExpression.WrittenAs
  decide +kernel

theorem everyMinute_reads (first last : DateTime) : everyMinute.Reads first last "* * * * *" always where
  accepts := iff_of_true ⟨(), by decide +kernel⟩ (by decide)
  after _ _ t u _ _ := by
    rw [isNext_congr fun _ => always_occurs]
    have hnext := everyMinute_correct () t ⟨(t.nanos / 60000000000 + 1) * 60000000000⟩ rfl
    constructor
    · exact everyMinute_correct () t u
    · exact fun h => congrArg some (hnext.unique h)

theorem always_sameDays : always.SameDays := by
  rw [CronExpression.SameDays, if_pos (by decide)]
  exact fun _ => by decide

/-- A crate for one expression, which reads it when it is valid and finds every occurrence. -/
noncomputable def crateFor (e : CronExpression) : Cron Unit where
  fromStr _ := if e.valid 1 = true then .ok () else .error "Invalid expression"
  after _ t := open Classical in if h : ∃ u, IsNext e.crateOccurs t u then some h.choose else none

theorem crateFor_reads (first last : DateTime) (text : String) (e : CronExpression) :
    (crateFor e).Reads first last text e where
  accepts := by
    by_cases h : e.valid 1 = true <;> simp [crateFor, h]
  after := by
    rintro _ _ t u _ _
    simp only [crateFor]
    split
    · rename_i h
      rw [Option.some.injEq]
      exact ⟨fun heq => heq ▸ h.choose_spec, fun hnext => h.choose_spec.unique hnext⟩
    · rename_i h
      exact iff_of_false (by simp) fun hnext => h ⟨u, hnext⟩

/-- At nine on Mondays. -/
def mondays : CronExpression := ⟨[.point 0], [.point 9], [.star], [.star], [.point 1]⟩

/-- At nine on Sundays. -/
def sundays : CronExpression := ⟨[.point 0], [.point 9], [.star], [.star], [.point 0]⟩

end Djangors.Tasks
