import RuleMachine.Fault
import RuleMachine.Instruction.Basic
import RuleMachine.Program.Basic

/-!
# Events

What a machine reports while it works. An event holds the values it tells of; its level, its message and the text of its fields are functions of it.
-/

namespace RuleMachine

inductive Level where
  | trace | debug | info | warn
  deriving DecidableEq, Repr

inductive Event where
  /-- A run has read its entry from the header. -/
  | running (entryOffset : UInt16) (entry : Entry) (state : UInt32)
  /-- An instruction was decoded and is about to be executed. -/
  | step (pc : Nat) (instruction : Instruction) (depth : Nat)
  | written (endpoint : UInt32) (value : Value) (code : UInt8)
  /-- A logging sink was given a value. -/
  | endpointWrite (endpoint : UInt32) (value : Value)
  | stateChanged (before after : UInt32)
  | failed (fault : Fault) (pc : Nat) (opcode : Opcode)
  | replaced (state : UInt32) (size : Nat)
  deriving DecidableEq

namespace Event

def level : Event → Level
  | step _ _ _ => .trace
  | running _ _ _ | written _ _ _ => .debug
  | endpointWrite _ _ | stateChanged _ _ | replaced _ _ => .info
  | failed _ _ _ => .warn

def message : Event → String
  | running _ _ _ => "running program"
  | step _ _ _ => "step"
  | written _ _ _ => "write"
  | endpointWrite _ _ => "endpoint write"
  | stateChanged _ _ => "state changed"
  | failed _ _ _ => "program run failed"
  | replaced _ _ => "program replaced"

def fields : Event → List (String × String)
  | running entryOffset entry state =>
    [("entry", toString entryOffset.toNat), ("trigger", entry.name), ("state", toString state.toNat)]
  | step pc instruction depth =>
    [("pc", toString pc), ("instruction", instruction.text), ("depth", toString depth)]
  | written endpoint value code =>
    [("eid", toString endpoint.toNat), ("value", value.text), ("code", toString code.toNat)]
  | endpointWrite endpoint value =>
    [("eid", toString endpoint.toNat), ("kind", value.kind.name), ("value", value.text)]
  | stateChanged before after => [("from", toString before.toNat), ("to", toString after.toNat)]
  | failed fault pc opcode =>
    [("error", fault.message), ("kind", fault.faultClass.name), ("pc", toString pc), ("opcode", opcode.mnemonic)]
  | replaced state size => [("state", toString state.toNat), ("len", toString size)]

end Event

end RuleMachine
