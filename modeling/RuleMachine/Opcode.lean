/-!
# Opcodes

The operations of the instruction set, one byte each. The bytes run without a gap from 0, so an opcode is its place in the table `Opcode.all`. Each has a mnemonic for listings and messages and a capitalised name for data exchange.
-/

namespace RuleMachine

inductive Opcode where
  | ldSourceIp | ldSourceEid | ldSourceVal | ldCurState | ldCurStateTime | ldFalse | ldTrue
  | ldU8 | ldU16 | ldU32 | ldFloat | ldDt | ldSysTime | ldReg | stReg | mul | div | mod | add
  | sub | dtDiff | and | or | xor | not | shl | shr | dup | dupI | rot | rotI | dtDecompose
  | getType | switch8 | switch16 | switch32 | cmpBlock | cmpIpUndef | cmpIpLo | cmpLt | cmpLe
  | cmpGt | cmpGe | cmpEq | cmpNeq | cmpDtLt | cmpDtGe | convB | convU8 | convU32 | convF | jnz
  | jz | jump | jnzS | jzS | jumpS | write | pop | retChange | retStay
  deriving DecidableEq, Repr, Inhabited

namespace Opcode

/-- The opcodes in the order of their bytes. -/
def all : List Opcode :=
  [.ldSourceIp, .ldSourceEid, .ldSourceVal, .ldCurState, .ldCurStateTime, .ldFalse, .ldTrue,
   .ldU8, .ldU16, .ldU32, .ldFloat, .ldDt, .ldSysTime, .ldReg, .stReg, .mul, .div, .mod, .add,
   .sub, .dtDiff, .and, .or, .xor, .not, .shl, .shr, .dup, .dupI, .rot, .rotI, .dtDecompose,
   .getType, .switch8, .switch16, .switch32, .cmpBlock, .cmpIpUndef, .cmpIpLo, .cmpLt, .cmpLe,
   .cmpGt, .cmpGe, .cmpEq, .cmpNeq, .cmpDtLt, .cmpDtGe, .convB, .convU8, .convU32, .convF, .jnz,
   .jz, .jump, .jnzS, .jzS, .jumpS, .write, .pop, .retChange, .retStay]

def toByte : Opcode → UInt8
  | .ldSourceIp => 0x00
  | .ldSourceEid => 0x01
  | .ldSourceVal => 0x02
  | .ldCurState => 0x03
  | .ldCurStateTime => 0x04
  | .ldFalse => 0x05
  | .ldTrue => 0x06
  | .ldU8 => 0x07
  | .ldU16 => 0x08
  | .ldU32 => 0x09
  | .ldFloat => 0x0a
  | .ldDt => 0x0b
  | .ldSysTime => 0x0c
  | .ldReg => 0x0d
  | .stReg => 0x0e
  | .mul => 0x0f
  | .div => 0x10
  | .mod => 0x11
  | .add => 0x12
  | .sub => 0x13
  | .dtDiff => 0x14
  | .and => 0x15
  | .or => 0x16
  | .xor => 0x17
  | .not => 0x18
  | .shl => 0x19
  | .shr => 0x1a
  | .dup => 0x1b
  | .dupI => 0x1c
  | .rot => 0x1d
  | .rotI => 0x1e
  | .dtDecompose => 0x1f
  | .getType => 0x20
  | .switch8 => 0x21
  | .switch16 => 0x22
  | .switch32 => 0x23
  | .cmpBlock => 0x24
  | .cmpIpUndef => 0x25
  | .cmpIpLo => 0x26
  | .cmpLt => 0x27
  | .cmpLe => 0x28
  | .cmpGt => 0x29
  | .cmpGe => 0x2a
  | .cmpEq => 0x2b
  | .cmpNeq => 0x2c
  | .cmpDtLt => 0x2d
  | .cmpDtGe => 0x2e
  | .convB => 0x2f
  | .convU8 => 0x30
  | .convU32 => 0x31
  | .convF => 0x32
  | .jnz => 0x33
  | .jz => 0x34
  | .jump => 0x35
  | .jnzS => 0x36
  | .jzS => 0x37
  | .jumpS => 0x38
  | .write => 0x39
  | .pop => 0x3a
  | .retChange => 0x3b
  | .retStay => 0x3c

def ofByte? (b : UInt8) : Option Opcode := all[b.toNat]?

/-- The name in listings and messages. -/
def mnemonic : Opcode → String
  | .ldSourceIp => "LD_SOURCE_IP"
  | .ldSourceEid => "LD_SOURCE_EID"
  | .ldSourceVal => "LD_SOURCE_VAL"
  | .ldCurState => "LD_CURSTATE"
  | .ldCurStateTime => "LD_CURSTATETIME"
  | .ldFalse => "LD_FALSE"
  | .ldTrue => "LD_TRUE"
  | .ldU8 => "LD_U8"
  | .ldU16 => "LD_U16"
  | .ldU32 => "LD_U32"
  | .ldFloat => "LD_FLOAT"
  | .ldDt => "LD_DT"
  | .ldSysTime => "LD_SYSTIME"
  | .ldReg => "LD_REG"
  | .stReg => "ST_REG"
  | .mul => "MUL"
  | .div => "DIV"
  | .mod => "MOD"
  | .add => "ADD"
  | .sub => "SUB"
  | .dtDiff => "DT_DIFF"
  | .and => "AND"
  | .or => "OR"
  | .xor => "XOR"
  | .not => "NOT"
  | .shl => "SHL"
  | .shr => "SHR"
  | .dup => "DUP"
  | .dupI => "DUP_I"
  | .rot => "ROT"
  | .rotI => "ROT_I"
  | .dtDecompose => "DT_DECOMPOSE"
  | .getType => "GETTYPE"
  | .switch8 => "SWITCH_8"
  | .switch16 => "SWITCH_16"
  | .switch32 => "SWITCH_32"
  | .cmpBlock => "CMP_BLOCK"
  | .cmpIpUndef => "CMP_IP_UNDEF"
  | .cmpIpLo => "CMP_IP_LO"
  | .cmpLt => "CMP_LT"
  | .cmpLe => "CMP_LE"
  | .cmpGt => "CMP_GT"
  | .cmpGe => "CMP_GE"
  | .cmpEq => "CMP_EQ"
  | .cmpNeq => "CMP_NEQ"
  | .cmpDtLt => "CMP_DT_LT"
  | .cmpDtGe => "CMP_DT_GE"
  | .convB => "CONV_B"
  | .convU8 => "CONV_U8"
  | .convU32 => "CONV_U32"
  | .convF => "CONV_F"
  | .jnz => "JNZ"
  | .jz => "JZ"
  | .jump => "JUMP"
  | .jnzS => "JNZ_S"
  | .jzS => "JZ_S"
  | .jumpS => "JUMP_S"
  | .write => "WRITE"
  | .pop => "POP"
  | .retChange => "RET_CHANGE"
  | .retStay => "RET_STAY"

/-- The name in data exchange. -/
def exchangeName : Opcode → String
  | .ldSourceIp => "LdSourceIp"
  | .ldSourceEid => "LdSourceEid"
  | .ldSourceVal => "LdSourceVal"
  | .ldCurState => "LdCurState"
  | .ldCurStateTime => "LdCurStateTime"
  | .ldFalse => "LdFalse"
  | .ldTrue => "LdTrue"
  | .ldU8 => "LdU8"
  | .ldU16 => "LdU16"
  | .ldU32 => "LdU32"
  | .ldFloat => "LdFloat"
  | .ldDt => "LdDt"
  | .ldSysTime => "LdSysTime"
  | .ldReg => "LdReg"
  | .stReg => "StReg"
  | .mul => "Mul"
  | .div => "Div"
  | .mod => "Mod"
  | .add => "Add"
  | .sub => "Sub"
  | .dtDiff => "DtDiff"
  | .and => "And"
  | .or => "Or"
  | .xor => "Xor"
  | .not => "Not"
  | .shl => "Shl"
  | .shr => "Shr"
  | .dup => "Dup"
  | .dupI => "DupI"
  | .rot => "Rot"
  | .rotI => "RotI"
  | .dtDecompose => "DtDecompose"
  | .getType => "GetType"
  | .switch8 => "Switch8"
  | .switch16 => "Switch16"
  | .switch32 => "Switch32"
  | .cmpBlock => "CmpBlock"
  | .cmpIpUndef => "CmpIpUndef"
  | .cmpIpLo => "CmpIpLo"
  | .cmpLt => "CmpLt"
  | .cmpLe => "CmpLe"
  | .cmpGt => "CmpGt"
  | .cmpGe => "CmpGe"
  | .cmpEq => "CmpEq"
  | .cmpNeq => "CmpNeq"
  | .cmpDtLt => "CmpDtLt"
  | .cmpDtGe => "CmpDtGe"
  | .convB => "ConvB"
  | .convU8 => "ConvU8"
  | .convU32 => "ConvU32"
  | .convF => "ConvF"
  | .jnz => "Jnz"
  | .jz => "Jz"
  | .jump => "Jump"
  | .jnzS => "JnzS"
  | .jzS => "JzS"
  | .jumpS => "JumpS"
  | .write => "Write"
  | .pop => "Pop"
  | .retChange => "RetChange"
  | .retStay => "RetStay"

theorem ofByte?_toByte (o : Opcode) : ofByte? o.toByte = some o := by cases o <;> rfl

theorem toByte_of_ofByte? {b : UInt8} {o : Opcode} (h : ofByte? b = some o) : o.toByte = b := by
  obtain ⟨hlt, rfl⟩ := List.getElem?_eq_some_iff.1 h
  have hall : ∀ n (hn : n < all.length), (all[n]).toByte.toNat = n := by decide
  exact UInt8.toNat.inj (hall b.toNat hlt)

end Opcode

end RuleMachine
