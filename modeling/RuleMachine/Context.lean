import RuleMachine.Fault
import RuleMachine.Stack

/-!
# Execution context

The scratch space of one run: an empty stack and undefined registers to begin with, the trigger, where the run is and which instruction it is at. What the stack refuses becomes a fault that names that instruction and the depth it found.
-/

namespace RuleMachine

/-- The packet that starts a run. -/
structure Trigger where
  source : Block
  endpoint : UInt32
  value : Value
  deriving DecidableEq

structure Context where
  stack : Stack
  registers : Vector Value 16
  trigger : Option Trigger
  pc : Nat
  opcode : Opcode

namespace Context

/-- The context before the run has reached its entry. -/
def start (trigger : Option Trigger) (stackLimit : Nat) : Context where
  stack := .empty stackLimit
  registers := Vector.replicate 16 .undefined
  trigger
  pc := 0
  opcode := .retStay

/-- What a refusal by the stack means at this point of the run. -/
def fault (c : Context) : StackFault → Fault
  | .overflow => .stackOverflow c.stack.limit
  | .underflow needed => .stackUnderflow c.opcode needed c.stack.depth

/-- The result of a stack operation, with the stack put back into the context. -/
def withStack (c : Context) : Except StackFault Stack → Except Fault Context
  | .ok stack => .ok { c with stack }
  | .error f => .error (c.fault f)

def push (c : Context) (v : Value) : Except Fault Context := c.withStack (c.stack.push v)

def dup (c : Context) (offset : Nat) : Except Fault Context := c.withStack (c.stack.dup offset)

def rot (c : Context) (offset : Nat) : Except Fault Context := c.withStack (c.stack.rot offset)

def pop (c : Context) : Except Fault (Value × Context) :=
  match c.stack.pop with
  | .ok (v, stack) => .ok (v, { c with stack })
  | .error f => .error (c.fault f)

def popPair (c : Context) : Except Fault (Value × Value × Context) :=
  match c.stack.popPair with
  | .ok (a, b, stack) => .ok (a, b, { c with stack })
  | .error f => .error (c.fault f)

def popMany (c : Context) (n : Nat) : Except Fault (List Value × Context) :=
  match c.stack.popMany n with
  | .ok (values, stack) => .ok (values, { c with stack })
  | .error f => .error (c.fault f)

def register (c : Context) (index : UInt8) : Except Fault Value :=
  match c.registers[index.toNat]? with
  | some v => .ok v
  | none => .error (.invalidRegister index)

def setRegister (c : Context) (index : UInt8) (v : Value) : Except Fault Context :=
  if h : index.toNat < 16 then .ok { c with registers := c.registers.set index.toNat v h }
  else .error (.invalidRegister index)

def requireTrigger (c : Context) : Except Fault Trigger :=
  match c.trigger with
  | some trigger => .ok trigger
  | none => .error (.missingTrigger c.opcode)

end Context

end RuleMachine
