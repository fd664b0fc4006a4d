import RuleMachine.Datetime.Algebra
import RuleMachine.Fault
import RuleMachine.Instruction.Basic
import RuleMachine.Single.Arithmetic

/-!
# Operators

What the operators compute on values, without a stack. Operands are in program order, the left one pushed first. An operator that does not accept its operands blames the first one it does not accept, and integer results are taken at 32 bits and then cut to the kind at which the operands meet.
-/

namespace RuleMachine

/-- The kind to blame when one of two operands is not accepted. -/
def culprit (accepts : Kind → Bool) (a b : Value) : Kind := if accepts a.kind then b.kind else a.kind

def Value.integer (v : Value) (opcode : Opcode) : Except Fault UInt32 :=
  match v.word? with
  | some n => .ok n
  | none => .error (.typeMismatch opcode v.kind)

/-- An integer result at the kind at which the operands meet. -/
def Value.ofResult (opcode : Opcode) (kind : Kind) (n : UInt32) : Except Fault Value :=
  match Value.ofWord? kind n with
  | some v => .ok v
  | none => .error (.typeMismatch opcode kind)

namespace ArithmeticOp

/-- The remainder of floats is zero whatever they are. -/
def onSingles : ArithmeticOp → Single → Single → Value
  | .mul, x, y => .float (x.mul y)
  | .div, x, y => .float (x.div y)
  | .mod, _, _ => .float (.zero false)
  | .add, x, y => .float (x.add y)
  | .sub, x, y => .float (x.sub y)
  | .lt, x, y => .bool (x.lt y)
  | .le, x, y => .bool (x.le y)
  | .gt, x, y => .bool (y.lt x)
  | .ge, x, y => .bool (y.le x)
  | .eq, x, y => .bool (x.eq y)
  | .neq, x, y => .bool !(x.eq y)

def onIntegers (op : ArithmeticOp) (kind : Kind) (a b : UInt32) : Except Fault Value :=
  match op with
  | .mul => Value.ofResult op.opcode kind (a * b)
  | .div => if b = 0 then .error (.divisionByZero op.opcode) else Value.ofResult op.opcode kind (a / b)
  | .mod => if b = 0 then .error (.divisionByZero op.opcode) else Value.ofResult op.opcode kind (a % b)
  | .add => Value.ofResult op.opcode kind (a + b)
  | .sub => Value.ofResult op.opcode kind (a - b)
  | .lt => .ok (.bool (a < b))
  | .le => .ok (.bool (a ≤ b))
  | .gt => .ok (.bool (b < a))
  | .ge => .ok (.bool (b ≤ a))
  | .eq => .ok (.bool (a = b))
  | .neq => .ok (.bool (a ≠ b))

def apply (op : ArithmeticOp) (a b : Value) : Except Fault Value :=
  match a.kind.promoteArithmetic? b.kind with
  | none => .error (.typeMismatch op.opcode (culprit Kind.isArithmetic a b))
  | some .float =>
    match a.single?, b.single? with
    | some x, some y => .ok (op.onSingles x y)
    | _, _ => .error (.typeMismatch op.opcode .float)
  | some kind => do
    let m ← a.integer op.opcode
    let n ← b.integer op.opcode
    op.onIntegers kind m n

end ArithmeticOp

namespace BitOp

/-- A shift by the width or more leaves nothing. -/
def onWords : BitOp → UInt32 → UInt32 → UInt32
  | .and, a, b => a &&& b
  | .or, a, b => a ||| b
  | .xor, a, b => a ^^^ b
  | .shl, a, b => if b < 32 then a <<< b else 0
  | .shr, a, b => if b < 32 then a >>> b else 0

def apply (op : BitOp) (a b : Value) : Except Fault Value :=
  match a.kind.promoteInteger? b.kind with
  | none => .error (.typeMismatch op.opcode (culprit Kind.isInteger a b))
  | some kind => do
    let m ← a.integer op.opcode
    let n ← b.integer op.opcode
    Value.ofResult op.opcode kind (op.onWords m n)

end BitOp

namespace Value

/-- The complement within the width of the operand. -/
def complement : Value → Except Fault Value
  | bool b => .ok (bool !b)
  | u8 n => .ok (u8 (~~~n))
  | u32 n => .ok (u32 (~~~n))
  | v => .error (.typeMismatch .not v.kind)

def datetimes (opcode : Opcode) : Value → Value → Except Fault (Datetime × Datetime)
  | datetime d, datetime e => .ok (d, e)
  | a, b => .error (.typeMismatch opcode (culprit (· = .datetime) a b))

def datetimeDiff (a b : Value) : Except Fault Value := do
  let (d, e) ← datetimes .dtDiff a b
  return u32 (d.diff e)

def datetimeCompare (order : DatetimeOrder) (mask : Datetime.Mask) (a b : Value) : Except Fault Value := do
  let (d, e) ← datetimes order.opcode a b
  return bool (match order with
    | .ge => d.fieldwiseGe e mask
    | .lt => !d.fieldwiseGe e mask)

def convert (v : Value) (target : Kind) : Except Fault Value :=
  match v.convert? target with
  | some w => .ok w
  | none => .error (.typeMismatch target.conversionOpcode v.kind)

def blockBytes (v : Value) (opcode : Opcode) : Except Fault Block :=
  match v with
  | block bytes => .ok bytes
  | _ => .error (.typeMismatch opcode v.kind)

/-- The bytes from `first` to `last`, if all of them exist; a range may also be empty just after `last`. -/
def blockRange? (bytes : Block) (first last : UInt8) : Option (List UInt8) :=
  if first.toNat ≤ last.toNat + 1 ∧ last.toNat < 16 then
    some ((bytes.toList.take (last.toNat + 1)).drop first.toNat)
  else none

/-- The bytes from `first` to `last` of a block are those of the literal. -/
def compareBlock (v : Value) (first last : UInt8) (literal : List UInt8) : Except Fault Value := do
  let bytes ← v.blockBytes .cmpBlock
  return bool (blockRange? bytes first last = some literal)

/-- A block is fifteen zeros followed by `last`. -/
def compareAddress (v : Value) (opcode : Opcode) (last : UInt8) : Except Fault Value := do
  let bytes ← v.blockBytes opcode
  return bool ((bytes.toList.take 15).all (· = 0) && bytes[15] = last)

end Value

end RuleMachine
