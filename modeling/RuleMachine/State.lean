import RuleMachine.Calendar.Moment

/-!
# The state of a program

The state a program is in is all that outlives a run: which state it is, when it was entered and the origin its times count from. Times are whole seconds since the origin, at 32 bits. What a run comes to tells the state before and after it.
-/

namespace RuleMachine

structure RuleState where
  current : UInt32
  /-- Seconds from `created` to when `current` was entered. -/
  enteredAt : UInt32
  created : Moment
  deriving DecidableEq, Repr

namespace RuleState

def start (initial : UInt32) (created : Moment) : RuleState := ⟨initial, 0, created⟩

def timestamp (s : RuleState) (now : Moment) : UInt32 := now.secondsSince s.created

def dwell (s : RuleState) (now : Moment) : UInt32 := s.timestamp now - s.enteredAt

def enter (s : RuleState) (state : UInt32) (now : Moment) : RuleState :=
  { s with current := state, enteredAt := s.timestamp now }

end RuleState

inductive Outcome where
  | stayed (state : UInt32)
  /-- The state before and after, which may be the same. -/
  | changed (before after : UInt32)
  deriving DecidableEq, Repr

def Outcome.state : Outcome → UInt32
  | .stayed state => state
  | .changed _ after => after

end RuleMachine
