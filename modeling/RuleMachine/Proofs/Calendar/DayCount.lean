import Mathlib.Logic.Function.Iterate
import Mathlib.Tactic.IntervalCases
import RuleMachine.Calendar.Date

/-!
# Counting the days

The number of a date counts days: the day after a date has the next number, at the end of a month and of a year too, and dates are as many days apart as their numbers say. What carries this is that a year has the days of its months and that the years before a year have the days of all of them.
-/

namespace RuleMachine

namespace Calendar

variable {year : Int} {month : Nat}

theorem isLeap_iff : isLeap year = true ↔ year % 4 = 0 ∧ (year % 100 ≠ 0 ∨ year % 400 = 0) := by simp [isLeap]

theorem daysBeforeYear_succ (year : Int) : daysBeforeYear (year + 1) = daysBeforeYear year + yearLength year := by
  unfold daysBeforeYear yearLength
  by_cases hleap : isLeap year = true
  · rw [if_pos hleap]
    rw [isLeap_iff] at hleap
    dsimp only
    omega
  · rw [if_neg hleap]
    rw [isLeap_iff] at hleap
    dsimp only
    omega

/-- The leap day is in the two months before March. -/
theorem yearLength_eq (year : Int) : yearLength year = daysBeforeMonth year 3 + 306 := by
  simp only [yearLength, daysBeforeMonth, monthLength]
  split <;> rfl

/-- From March on the lengths of the months follow a pattern: what a line of slope 153/5 grows by. -/
theorem monthLength_of_march (year : Int) (hlow : 3 ≤ month) (hhigh : month ≤ 12) :
    monthLength year month = (153 * (month - 2) + 2) / 5 - (153 * (month - 3) + 2) / 5 := by
  interval_cases month <;> rfl

theorem daysBeforeMonth_of_march (year : Int) (hlow : 3 ≤ month) (hhigh : month ≤ 13) :
    daysBeforeMonth year month = daysBeforeMonth year 3 + (153 * (month - 3) + 2) / 5 := by
  induction month, hlow using Nat.le_induction with
  | base => rfl
  | succ month hlow ih =>
    rw [daysBeforeMonth, ih (by omega), monthLength_of_march year hlow (by omega)]
    omega

theorem daysBeforeMonth_thirteen (year : Int) : daysBeforeMonth year 13 = yearLength year := by
  rw [daysBeforeMonth_of_march year (by decide) (by decide), yearLength_eq]

theorem month_range_of_pos (h : 0 < monthLength year month) : 1 ≤ month ∧ month ≤ 12 := by
  by_contra hrange
  have hnone : monthLength year month = 0 := by
    unfold monthLength
    split <;> first | rfl | omega
  omega

theorem monthLength_pos (year : Int) (hlow : 1 ≤ month) (hhigh : month ≤ 12) : 1 ≤ monthLength year month := by
  cases hleap : isLeap year <;> interval_cases month <;> simp [monthLength, hleap]

theorem monthLength_le (year : Int) (month : Nat) : monthLength year month ≤ 31 := by
  unfold monthLength
  split <;> (try split) <;> omega

theorem daysBeforeYear_le {later : Int} (h : year ≤ later) : daysBeforeYear year ≤ daysBeforeYear later := by
  unfold daysBeforeYear
  dsimp only
  omega

theorem daysBeforeMonth_le (year : Int) {later : Nat} (h : month ≤ later) :
    daysBeforeMonth year month ≤ daysBeforeMonth year later := by
  induction later, h using Nat.le_induction with
  | base => exact Nat.le_refl _
  | succ later _ ih => exact Nat.le_add_right_of_le ih

end Calendar

namespace Date

open Calendar

theorem month_range (d : Date) : 1 ≤ d.month ∧ d.month ≤ 12 :=
  month_range_of_pos (Nat.lt_of_lt_of_le d.exists_day.1 d.exists_day.2)

theorem day_le (d : Date) : d.day ≤ 31 := Nat.le_trans d.exists_day.2 (monthLength_le d.year d.month)

/-- The day after, which begins the next month if the month ends with this one, and the next year if the year does. -/
def tomorrow (d : Date) : Date :=
  if hday : d.day < monthLength d.year d.month then ⟨d.year, d.month, d.day + 1, by omega⟩
  else if hmonth : d.month < 12 then
    ⟨d.year, d.month + 1, 1, Nat.le_refl 1, monthLength_pos d.year (by omega) hmonth⟩
  else ⟨d.year + 1, 1, 1, Nat.le_refl 1, monthLength_pos (d.year + 1) (by decide) (by decide)⟩

theorem dayNumber_tomorrow (d : Date) : d.tomorrow.dayNumber = d.dayNumber + 1 := by
  have hday := d.exists_day.2
  have hmonth := d.month_range.2
  unfold tomorrow
  split
  · simp only [dayNumber]
    omega
  · split
    · simp only [dayNumber, daysBeforeMonth]
      omega
    · have htwelve : d.month = 12 := by omega
      have hyear := daysBeforeYear_succ d.year
      have hmonths : daysBeforeMonth d.year d.month + monthLength d.year d.month = yearLength d.year := by
        rw [htwelve]
        exact daysBeforeMonth_thirteen d.year
      simp only [dayNumber, daysBeforeMonth, monthLength]
      omega

theorem dayNumber_iterate_tomorrow (n : Nat) (d : Date) : (tomorrow^[n] d).dayNumber = d.dayNumber + n := by
  induction n with
  | zero => simp
  | succ n ih =>
    rw [Function.iterate_succ_apply', dayNumber_tomorrow, ih]
    omega

/-! ### One number, one date -/

theorem lt_dayNumber (d : Date) : daysBeforeYear d.year + daysBeforeMonth d.year d.month < d.dayNumber := by
  have hday := d.exists_day.1
  rw [dayNumber]
  omega

theorem dayNumber_le_of_month (d : Date) :
    d.dayNumber ≤ daysBeforeYear d.year + daysBeforeMonth d.year (d.month + 1) := by
  have hday := d.exists_day.2
  rw [dayNumber, daysBeforeMonth]
  omega

theorem dayNumber_le_of_year (d : Date) : d.dayNumber ≤ daysBeforeYear (d.year + 1) := by
  have hmonth : d.month + 1 ≤ 13 := Nat.succ_le_succ d.month_range.2
  have hmonths := daysBeforeMonth_le d.year hmonth
  have hday := d.dayNumber_le_of_month
  rw [daysBeforeMonth_thirteen] at hmonths
  rw [daysBeforeYear_succ]
  omega

theorem dayNumber_lt_of_year {d e : Date} (h : d.year < e.year) : d.dayNumber < e.dayNumber := by
  have hbefore := d.dayNumber_le_of_year
  have hyears := daysBeforeYear_le (Int.add_one_le_of_lt h)
  have hafter := e.lt_dayNumber
  omega

theorem dayNumber_lt_of_month {d e : Date} (hyear : d.year = e.year) (hmonth : d.month + 1 ≤ e.month) :
    d.dayNumber < e.dayNumber := by
  have hbefore := d.dayNumber_le_of_month
  have hmonths := daysBeforeMonth_le e.year hmonth
  have hafter := e.lt_dayNumber
  rw [hyear] at hbefore
  omega

theorem dayNumber_inj {d e : Date} : d.dayNumber = e.dayNumber ↔ d = e := by
  constructor
  · intro h
    rcases lt_trichotomy d.year e.year with hyear | hyear | hyear
    · exact absurd h (dayNumber_lt_of_year hyear).ne
    · rcases lt_trichotomy d.month e.month with hmonth | hmonth | hmonth
      · exact absurd h (dayNumber_lt_of_month hyear hmonth).ne
      · have hday : d.day = e.day := by
          rw [dayNumber, dayNumber, hyear, hmonth] at h
          omega
        cases d
        cases e
        cases hyear
        cases hmonth
        cases hday
        rfl
      · exact absurd h (dayNumber_lt_of_month hyear.symm hmonth).ne'
    · exact absurd h (dayNumber_lt_of_year hyear).ne'
  · intro h
    rw [h]

/-- The day a number of days after a date is the one whose number is that much higher. -/
theorem iterate_tomorrow_eq_iff {n : Nat} {d e : Date} : tomorrow^[n] d = e ↔ e.dayNumber = d.dayNumber + n := by
  rw [← dayNumber_inj, dayNumber_iterate_tomorrow, eq_comm]

end Date

end RuleMachine
