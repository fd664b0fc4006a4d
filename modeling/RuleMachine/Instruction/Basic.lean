import RuleMachine.Instruction.SwitchTable
import RuleMachine.Opcode
import RuleMachine.Value.Basic

/-!
# Instructions

An instruction with its operands. Several instructions share an operation that differs in its opcode only, so the opcode is a function of the instruction; of two instructions with one opcode only the operands differ.
-/

namespace RuleMachine

inductive ArithmeticOp where
  | mul | div | mod | add | sub | lt | le | gt | ge | eq | neq
  deriving DecidableEq, Repr

inductive BitOp where
  | and | or | xor | shl | shr
  deriving DecidableEq, Repr

inductive DatetimeOrder where
  | lt | ge
  deriving DecidableEq, Repr

inductive JumpCondition where
  | always | zero | nonZero
  deriving DecidableEq, Repr

inductive Instruction where
  | loadSourceAddress
  | loadSourceEndpoint
  | loadSourceValue
  | loadState
  | loadDwell
  | loadClock
  | loadFalse
  | loadTrue
  | loadU8 (n : UInt8)
  | loadU16 (n : UInt16)
  | loadU32 (n : UInt32)
  | loadFloat (x : Single)
  | loadDatetime (mask : Datetime.Mask) (value : Datetime)
  | loadRegister (index : UInt8)
  | storeRegister (index : UInt8)
  | arithmetic (op : ArithmeticOp)
  | bitwise (op : BitOp)
  | not
  | datetimeDiff
  | datetimeCompare (order : DatetimeOrder) (mask : Datetime.Mask)
  | dup
  | dupAt (offset : UInt8)
  | rot
  | rotAt (offset : UInt8)
  | decompose (mask : Datetime.Mask)
  | typeTag
  | pop
  | switch (table : SwitchTable)
  | jump (condition : JumpCondition) (skip : UInt16) (short : Bool)
  | compareBlock (first last : UInt8) (literal : List UInt8)
  | compareUnspecified
  | compareLoopback
  | convert (target : Kind)
  | write
  | changeState
  | stay
  deriving DecidableEq, Repr

def ArithmeticOp.opcode : ArithmeticOp → Opcode
  | .mul => .mul
  | .div => .div
  | .mod => .mod
  | .add => .add
  | .sub => .sub
  | .lt => .cmpLt
  | .le => .cmpLe
  | .gt => .cmpGt
  | .ge => .cmpGe
  | .eq => .cmpEq
  | .neq => .cmpNeq

def BitOp.opcode : BitOp → Opcode
  | .and => .and
  | .or => .or
  | .xor => .xor
  | .shl => .shl
  | .shr => .shr

def DatetimeOrder.opcode : DatetimeOrder → Opcode
  | .lt => .cmpDtLt
  | .ge => .cmpDtGe

def CaseWidth.opcode : CaseWidth → Opcode
  | .w8 => .switch8
  | .w16 => .switch16
  | .w32 => .switch32

def JumpCondition.opcode (short : Bool) : JumpCondition → Opcode
  | .nonZero => if short then .jnzS else .jnz
  | .zero => if short then .jzS else .jz
  | .always => if short then .jumpS else .jump

/-- The opcode of the conversion to a kind; only arithmetic kinds can be told apart, and every other one counts as float. -/
def Kind.conversionOpcode : Kind → Opcode
  | .bool => .convB
  | .u8 => .convU8
  | .u32 => .convU32
  | _ => .convF

namespace Instruction

def opcode : Instruction → Opcode
  | loadSourceAddress => .ldSourceIp
  | loadSourceEndpoint => .ldSourceEid
  | loadSourceValue => .ldSourceVal
  | loadState => .ldCurState
  | loadDwell => .ldCurStateTime
  | loadClock => .ldSysTime
  | loadFalse => .ldFalse
  | loadTrue => .ldTrue
  | loadU8 _ => .ldU8
  | loadU16 _ => .ldU16
  | loadU32 _ => .ldU32
  | loadFloat _ => .ldFloat
  | loadDatetime _ _ => .ldDt
  | loadRegister _ => .ldReg
  | storeRegister _ => .stReg
  | arithmetic op => op.opcode
  | bitwise op => op.opcode
  | not => .not
  | datetimeDiff => .dtDiff
  | datetimeCompare order _ => order.opcode
  | dup => .dup
  | dupAt _ => .dupI
  | rot => .rot
  | rotAt _ => .rotI
  | decompose _ => .dtDecompose
  | typeTag => .getType
  | pop => .pop
  | switch table => table.width.opcode
  | jump condition _ short => condition.opcode short
  | compareBlock _ _ _ => .cmpBlock
  | compareUnspecified => .cmpIpUndef
  | compareLoopback => .cmpIpLo
  | convert target => target.conversionOpcode
  | write => .write
  | changeState => .retChange
  | stay => .retStay

def literal? : Instruction → Option Value
  | loadFalse => some (.bool false)
  | loadTrue => some (.bool true)
  | loadU8 n => some (.u8 n)
  | loadU16 n => some (.u32 n.toUInt32)
  | loadU32 n => some (.u32 n)
  | loadFloat x => some (.float x)
  | loadDatetime _ value => some (.datetime value)
  | _ => none

/-- The operands as they are listed after the mnemonic. -/
def operandText? : Instruction → Option String
  | loadU8 n | loadRegister n | storeRegister n | dupAt n | rotAt n => some (toString n.toNat)
  | loadU16 n => some (toString n.toNat)
  | loadU32 n => some (toString n.toNat)
  | loadFloat x => some x.text
  | loadDatetime mask value => some ("mask=" ++ Numeral.markedByte mask.bits ++ " " ++ value.text)
  | datetimeCompare _ mask | decompose mask => some ("mask=" ++ Numeral.markedByte mask.bits)
  | switch table =>
    let entries := table.cases.map fun (value, skip) => toString value.toNat ++ " => +" ++ toString skip.toNat
    some ("[" ++ String.intercalate ", " entries ++ "]")
  | jump _ skip _ => some ("+" ++ toString skip.toNat)
  | compareBlock first last literal =>
    some ("[" ++ toString first.toNat ++ "..=" ++ toString last.toNat ++ "] " ++ Numeral.hexBytes literal)
  | _ => none

def text (i : Instruction) : String :=
  match i.operandText? with
  | some operands => i.opcode.mnemonic ++ " " ++ operands
  | none => i.opcode.mnemonic

end Instruction

end RuleMachine
