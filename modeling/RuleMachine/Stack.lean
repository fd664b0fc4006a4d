import RuleMachine.Value.Basic

/-!
# The operand stack

A stack of values with a limit on its depth, kept from the top down. An operation that is refused gives no stack, so the one before it stands; `toList` shows the values from the bottom up.
-/

namespace RuleMachine

inductive StackFault where
  | overflow
  | underflow (needed : Nat)
  deriving DecidableEq, Repr

structure Stack where
  /-- The top of the stack comes first. -/
  values : List Value
  limit : Nat
  deriving DecidableEq

namespace Stack

/-- The most values that any stack holds. -/
def capacity : Nat := 32

/-- No values, under a limit that is itself limited by the capacity. -/
def empty (limit : Nat) : Stack := ⟨[], min limit capacity⟩

def depth (s : Stack) : Nat := s.values.length

/-- The values from the bottom to the top. -/
def toList (s : Stack) : List Value := s.values.reverse

def push (s : Stack) (v : Value) : Except StackFault Stack :=
  if s.depth < s.limit then .ok { s with values := v :: s.values } else .error .overflow

/-- Removes the top `n` values and gives them deepest first. -/
def popMany (s : Stack) (n : Nat) : Except StackFault (List Value × Stack) :=
  if n ≤ s.depth then .ok ((s.values.take n).reverse, { s with values := s.values.drop n }) else .error (.underflow n)

def pop (s : Stack) : Except StackFault (Value × Stack) :=
  match s.values with
  | v :: rest => .ok (v, { s with values := rest })
  | [] => .error (.underflow 1)

/-- Removes the top two values and gives them in the order in which they were pushed. -/
def popPair (s : Stack) : Except StackFault (Value × Value × Stack) :=
  match s.values with
  | b :: a :: rest => .ok (a, b, { s with values := rest })
  | _ => .error (.underflow 2)

def peek? (s : Stack) (depth : Nat) : Option Value := s.values[depth]?

def dup (s : Stack) (offset : Nat) : Except StackFault Stack :=
  match s.values[offset]? with
  | some v => s.push v
  | none => .error (.underflow (offset + 1))

/-- Brings the value `offset` places below the top to the top. -/
def rot (s : Stack) (offset : Nat) : Except StackFault Stack :=
  match s.values[offset]? with
  | some v => .ok { s with values := v :: s.values.eraseIdx offset }
  | none => .error (.underflow (offset + 1))

end Stack

end RuleMachine
