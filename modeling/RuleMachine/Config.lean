import RuleMachine.Stack

/-!
# Settings

What a host chooses for a machine. A stack limit may be any number, but no stack is deeper than its capacity.
-/

namespace RuleMachine

structure Config where
  /-- The state that a newly installed program is in. -/
  initialState : UInt32 := 0
  stackLimit : Nat := 32
  /-- Whether the header of a program is checked when it is installed. -/
  validateOnLoad : Bool := true
  deriving DecidableEq, Repr

namespace Config

/-- The stack limit as it takes effect. -/
def effectiveStackLimit (c : Config) : Nat := min c.stackLimit Stack.capacity

end Config

end RuleMachine
