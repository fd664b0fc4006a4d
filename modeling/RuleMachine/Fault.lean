import RuleMachine.CodeError
import RuleMachine.Value.Basic
import RuleMachine.Opcode

/-!
# Faults

Why a run fails. A fault is its cause, with the opcode of the instruction where that tells more; the wording and the class that hosts see are functions of it.
-/

namespace RuleMachine

/-- The classes of faults that hosts tell apart. -/
inductive FaultClass where
  | malformedProgram | type | stack | arithmetic | context
  deriving DecidableEq, Repr

def FaultClass.name : FaultClass → String
  | .malformedProgram => "malformed_program"
  | .type => "type"
  | .stack => "stack"
  | .arithmetic => "arithmetic"
  | .context => "context"

inductive Fault where
  | typeMismatch (opcode : Opcode) (found : Kind)
  | stackOverflow (limit : Nat)
  | stackUnderflow (opcode : Opcode) (needed depth : Nat)
  | invalidRegister (index : UInt8)
  | divisionByZero (opcode : Opcode)
  /-- The run has no trigger to load from. -/
  | missingTrigger (opcode : Opcode)
  | pcOutOfRange (pc size : Nat)
  | malformed (error : CodeError)
  deriving DecidableEq, Repr

namespace Fault

def faultClass : Fault → FaultClass
  | typeMismatch _ _ => .type
  | stackOverflow _ | stackUnderflow _ _ _ | invalidRegister _ => .stack
  | divisionByZero _ => .arithmetic
  | missingTrigger _ => .context
  | pcOutOfRange _ _ | malformed _ => .malformedProgram

def message : Fault → String
  | typeMismatch opcode found => "TypeError: " ++ opcode.mnemonic ++ " does not accept " ++ found.name
  | stackOverflow limit => "StackError: operand stack overflow (limit " ++ toString limit ++ ")"
  | stackUnderflow opcode needed depth =>
    "StackError: " ++ opcode.mnemonic ++ " needs " ++ toString needed ++ " operands, stack holds " ++ toString depth
  | invalidRegister index => "StackError: register " ++ toString index.toNat ++ " out of range"
  | divisionByZero opcode => "ArithmeticError: " ++ opcode.mnemonic ++ " by zero"
  | missingTrigger opcode => "ContextError: " ++ opcode.mnemonic ++ " without a trigger"
  | pcOutOfRange pc size =>
    "MalformedProgram: program counter " ++ toString pc ++ " out of range (length " ++ toString size ++ ")"
  | malformed error => "MalformedProgram: " ++ error.message

end Fault

end RuleMachine
