import RuleMachine.Calendar.Date

/-!
# Moments

A moment is a date and a time of day to the nanosecond, within the years the clock can show. Moments are points of one line: a moment is determined by its nanoseconds on that line, and moving along it and measuring between two of its points are additions there.
-/

namespace RuleMachine

/-- A point in time. There are no leap seconds: one that a clock shows as a second of more than 1000000000 nanoseconds is no moment. -/
structure Moment where
  date : Date
  hour : Nat
  minute : Nat
  second : Nat
  nanosecond : Nat
  time_valid : hour < 24 ∧ minute < 60 ∧ second < 60 ∧ nanosecond < 1000000000
  year_range : -262143 ≤ date.year ∧ date.year ≤ 262142
  deriving DecidableEq, Repr

namespace Moment

def ofDate? (date : Date) (hour minute second nanosecond : Nat) : Option Moment :=
  if h : (hour < 24 ∧ minute < 60 ∧ second < 60 ∧ nanosecond < 1000000000) ∧
      -262143 ≤ date.year ∧ date.year ≤ 262142 then
    some ⟨date, hour, minute, second, nanosecond, h.1, h.2⟩
  else none

def of? (year : Int) (month day hour minute second nanosecond : Nat) : Option Moment := do
  let date ← Date.of? year month day
  ofDate? date hour minute second nanosecond

/-! ### The time line -/

/-- Whole seconds on the time line. -/
def seconds (m : Moment) : Int := 86400 * m.date.dayNumber + (3600 * m.hour + 60 * m.minute + m.second : Nat)

def nanoseconds (m : Moment) : Int := 1000000000 * m.seconds + m.nanosecond

def ofNanoseconds? (n : Int) : Option Moment := do
  let seconds := n / 1000000000
  let date ← Date.ofDayNumber? (seconds / 86400)
  let rest := (seconds % 86400).toNat
  ofDate? date (rest / 3600) (rest / 60 % 60) (rest % 60) (n % 1000000000).toNat

/-- The moment `nanoseconds` later, or the same one when that is beyond the years of the clock. -/
def advance (m : Moment) (nanoseconds : Int) : Moment := (ofNanoseconds? (m.nanoseconds + nanoseconds)).getD m

/-- Whole seconds since `origin`, no less than 0 and no more than 32 bits hold. -/
def secondsSince (m origin : Moment) : UInt32 :=
  UInt32.ofNat (min ((m.nanoseconds - origin.nanoseconds) / 1000000000).toNat 0xffffffff)

end Moment

end RuleMachine
