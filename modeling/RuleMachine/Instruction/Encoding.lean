import RuleMachine.CodeError
import RuleMachine.Instruction.Basic

/-!
# Encoding instructions

An instruction is written as its opcode followed by its operands, numbers big-endian. Operands that the form has no room for are refused before anything is written, so an encoding is whole or absent.
-/

namespace RuleMachine

/-- The fields that the mask selects, in the order of their bits. -/
def Datetime.literalBytes (d : Datetime) (m : Datetime.Mask) : List UInt8 :=
  m.fields.flatMap fun f => BigEndian.encode f.width (d.get f)

namespace Instruction

/-- Why an operand has no encoded form, if one has none. -/
def operandError? : Instruction → Option CodeError
  | switch table => if 255 < table.size then some (.tooManyCases table.size) else none
  | jump _ skip short => if short && 255 < skip then some (.shortSkipOutOfRange skip) else none
  | compareBlock first last literal =>
    let expected := last.toNat - first.toNat + 1
    if last < first || 15 < last then some (.invalidBlockRange first last)
    else if literal.length ≠ expected then some (.blockLengthMismatch expected literal.length)
    else none
  | _ => none

def operandBytes : Instruction → List UInt8
  | loadU8 n | loadRegister n | storeRegister n | dupAt n | rotAt n => [n]
  | loadU16 n => BigEndian.encode 2 n.toNat
  | loadU32 n => BigEndian.encode 4 n.toNat
  | loadFloat x => BigEndian.encode 4 x.bits.toNat
  | loadDatetime mask value => mask.bits :: value.literalBytes mask
  | datetimeCompare _ mask | decompose mask => [mask.bits]
  | switch table => UInt8.ofNat table.size :: table.entries
  | jump _ skip short => if short then [skip.toUInt8] else BigEndian.encode 2 skip.toNat
  | compareBlock first last literal => (first <<< 4 ||| last) :: literal
  | _ => []

def encode (i : Instruction) : Except CodeError (List UInt8) :=
  match i.operandError? with
  | some e => .error e
  | none => .ok (i.opcode.toByte :: i.operandBytes)

/-- The instruction that the encoding stands for: what the form cannot express is gone from it. -/
def normal : Instruction → Instruction
  | loadDatetime mask value => loadDatetime mask (value.restrict mask)
  | convert target => convert (if target.isArithmetic then target else .float)
  | i => i

end Instruction

end RuleMachine
