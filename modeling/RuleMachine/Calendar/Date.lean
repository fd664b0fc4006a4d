/-!
# The Gregorian calendar

Dates of the calendar extended to all years, numbered by counting: the number of a date is the days of the years before it, of the months before it in its year and of its own month. Day 1 is 1 January of year 1, a Monday, so the number alone gives the weekday. The way back finds the year inside its cycle of 400 and then the month by the same counting.
-/

namespace RuleMachine

namespace Calendar

def isLeap (year : Int) : Bool := year % 4 = 0 && (year % 100 != 0 || year % 400 = 0)

def yearLength (year : Int) : Nat := if isLeap year then 366 else 365

/-- The days of a month, none for a month that does not exist. -/
def monthLength (year : Int) : Nat → Nat
  | 1 | 3 | 5 | 7 | 8 | 10 | 12 => 31
  | 4 | 6 | 9 | 11 => 30
  | 2 => if isLeap year then 29 else 28
  | _ => 0

/-- The days from the start of year 1 to the start of `year`. -/
def daysBeforeYear (year : Int) : Int :=
  let y := year - 1
  365 * y + y / 4 - y / 100 + y / 400

def daysBeforeMonth (year : Int) : Nat → Nat
  | 0 => 0
  | month + 1 => daysBeforeMonth year month + monthLength year month

end Calendar

structure Date where
  year : Int
  month : Nat
  day : Nat
  exists_day : 1 ≤ day ∧ day ≤ Calendar.monthLength year month
  deriving DecidableEq, Repr

namespace Date

open Calendar

def of? (year : Int) (month day : Nat) : Option Date :=
  if h : 1 ≤ day ∧ day ≤ monthLength year month then some ⟨year, month, day, h⟩ else none

def dayNumber (d : Date) : Int := daysBeforeYear d.year + daysBeforeMonth d.year d.month + d.day

/-- 0 is Sunday. -/
def weekday (d : Date) : Nat := (d.dayNumber % 7).toNat

/-- The year that holds the day `rest` days after the start of `year`, and the days since the start of that year. -/
def findYear : Nat → Int → Nat → Int × Nat
  | 0, year, rest => (year, rest)
  | fuel + 1, year, rest =>
    if rest < yearLength year then (year, rest) else findYear fuel (year + 1) (rest - yearLength year)

/-- The month that holds the day `rest` days after the start of `month`, and the days since the start of that month. -/
def findMonth (year : Int) : Nat → Nat → Nat → Nat × Nat
  | 0, month, rest => (month, rest)
  | fuel + 1, month, rest =>
    if rest < monthLength year month then (month, rest)
    else findMonth year fuel (month + 1) (rest - monthLength year month)

def ofDayNumber? (n : Int) : Option Date :=
  let cycle := (n - 1) / 146097
  let (year, rest) := findYear 400 (400 * cycle + 1) ((n - 1) % 146097).toNat
  let (month, before) := findMonth year 12 1 rest
  of? year month (before + 1)

end Date

end RuleMachine
