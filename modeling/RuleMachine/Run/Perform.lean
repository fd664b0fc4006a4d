import RuleMachine.Clock
import RuleMachine.Context
import RuleMachine.Operator
import RuleMachine.State

/-!
# Performing an instruction

What one instruction does to the context of a run. Nothing outside the context is touched: the clock is looked at where the instruction stands, a write is handed on as a request with its operands already taken and checked, and where the run goes next is part of the result.
-/

namespace RuleMachine

/-- What a run can see of the machine while it lasts. -/
structure Surroundings where
  state : RuleState
  clock : Clock

inductive Next where
  | advance
  /-- Goes on this many bytes after the next instruction. -/
  | skip (bytes : UInt16)
  /-- Writes to an endpoint, pushes the code of the answer and goes on. -/
  | write (endpoint : UInt32) (value : Value)
  | stay
  | change (state : UInt32)
  deriving DecidableEq

namespace Context

def advanceWith (c : Context) (v : Value) : Except Fault (Context × Next) := do
  let c ← c.push v
  return (c, .advance)

/-- Replaces the top of the stack by what `f` makes of it. -/
def mapTop (c : Context) (f : Value → Except Fault Value) : Except Fault (Context × Next) := do
  let (v, c) ← c.pop
  c.advanceWith (← f v)

def mapPair (c : Context) (f : Value → Value → Except Fault Value) : Except Fault (Context × Next) := do
  let (a, b, c) ← c.popPair
  c.advanceWith (← f a b)

/-- Pushes all of `values`, the first one deepest. -/
def pushAll (c : Context) : List Value → Except Fault Context
  | [] => .ok c
  | v :: values => do
    let c ← c.push v
    c.pushAll values

def decompose (c : Context) (mask : Datetime.Mask) : Except Fault (Context × Next) := do
  match ← c.pop with
  | (.datetime d, c) =>
    let c ← c.pushAll ((d.decompose mask).map .u32)
    return (c, .advance)
  | (v, _) => throw (.typeMismatch c.opcode v.kind)

def switch (c : Context) (table : SwitchTable) : Except Fault (Context × Next) := do
  let (v, c) ← c.pop
  let key ← v.integer c.opcode
  match table.lookup? key with
  | some skip => return (c, .skip skip)
  | none => return (c, .advance)

/-- A jump on a condition, which takes its operand whether or not it is taken. -/
def jumpIf (c : Context) (zero : Bool) (skip : UInt16) : Except Fault (Context × Next) := do
  let (v, c) ← c.pop
  match v.isZero? with
  | some isZero => return (c, if isZero = zero then .skip skip else .advance)
  | none => throw (.typeMismatch c.opcode v.kind)

def perform (c : Context) (around : Surroundings) (i : Instruction) : Except Fault (Context × Next) :=
  match i with
  | .loadSourceAddress => do
    let trigger ← c.requireTrigger
    c.advanceWith (.block trigger.source)
  | .loadSourceEndpoint => do
    let trigger ← c.requireTrigger
    c.advanceWith (.u32 trigger.endpoint)
  | .loadSourceValue => do
    let trigger ← c.requireTrigger
    c.advanceWith trigger.value
  | .loadState => c.advanceWith (.u32 around.state.current)
  | .loadDwell => c.advanceWith (.u32 (around.state.dwell (around.clock.reading c.pc)))
  | .loadClock => c.advanceWith (.datetime (.ofMoment (around.clock.reading c.pc)))
  | .loadFalse => c.advanceWith (.bool false)
  | .loadTrue => c.advanceWith (.bool true)
  | .loadU8 n => c.advanceWith (.u8 n)
  | .loadU16 n => c.advanceWith (.u32 n.toUInt32)
  | .loadU32 n => c.advanceWith (.u32 n)
  | .loadFloat x => c.advanceWith (.float x)
  | .loadDatetime _ value => c.advanceWith (.datetime value)
  | .loadRegister index => do
    let v ← c.register index
    c.advanceWith v
  | .storeRegister index => do
    let (v, c) ← c.pop
    let c ← c.setRegister index v
    return (c, .advance)
  | .arithmetic op => c.mapPair op.apply
  | .bitwise op => c.mapPair op.apply
  | .not => c.mapTop Value.complement
  | .datetimeDiff => c.mapPair Value.datetimeDiff
  | .datetimeCompare order mask => c.mapPair (Value.datetimeCompare order mask)
  | .dup => do
    let c ← c.dup 0
    return (c, .advance)
  | .dupAt offset => do
    let c ← c.dup offset.toNat
    return (c, .advance)
  | .rot => do
    let c ← c.rot 1
    return (c, .advance)
  | .rotAt offset => do
    let c ← c.rot offset.toNat
    return (c, .advance)
  | .decompose mask => c.decompose mask
  | .typeTag => c.mapTop fun v => .ok (.u8 v.kind.tag)
  | .pop => do
    let (_, c) ← c.pop
    return (c, .advance)
  | .switch table => c.switch table
  | .jump .always skip _ => .ok (c, .skip skip)
  | .jump .zero skip _ => c.jumpIf true skip
  | .jump .nonZero skip _ => c.jumpIf false skip
  | .compareBlock first last literal => c.mapTop fun v => v.compareBlock first last literal
  | .compareUnspecified => c.mapTop fun v => v.compareAddress c.opcode 0
  | .compareLoopback => c.mapTop fun v => v.compareAddress c.opcode 1
  | .convert target => c.mapTop fun v => v.convert target
  | .write => do
    let (endpoint, v, c) ← c.popPair
    let endpoint ← endpoint.integer c.opcode
    return (c, .write endpoint v)
  | .changeState => do
    let (v, c) ← c.pop
    let state ← v.integer c.opcode
    return (c, .change state)
  | .stay => .ok (c, .stay)

end Context

end RuleMachine
