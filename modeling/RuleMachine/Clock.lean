import RuleMachine.Calendar.Moment

/-!
# Clocks

Where a run has its times from. A clock may move while a program runs, so it can show another moment each time it is looked at. A run comes to no place of the code twice and looks at the clock at most once in each, so whatever a clock does, for a run it is a moment for each place.
-/

namespace RuleMachine

/-- What the clock shows while a run stands at each offset of the code. -/
structure Clock where
  reading : Nat → Moment

/-- The clock that shows this moment all the time. -/
def Clock.still (now : Moment) : Clock := ⟨fun _ => now⟩

/-- Where a clock is wanted, a moment is the clock that stands still at it. -/
instance : Coe Moment Clock := ⟨Clock.still⟩

end RuleMachine
