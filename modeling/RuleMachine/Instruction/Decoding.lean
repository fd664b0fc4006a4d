import RuleMachine.Instruction.Basic
import RuleMachine.Reader

/-!
# Decoding instructions

Decoding reads the opcode at an offset and then its operands, and tells how many bytes that took. It never looks beyond the bytes it takes, it always takes at least the opcode, and what it takes lies inside the code; running and listing a program end because of that.
-/

namespace RuleMachine.Instruction

/-- What was read, made into an operand. -/
def operand {α β : Type} (make : α → β) (read : Except CodeError (α × Reader)) : Except CodeError (β × Reader) :=
  read.map fun (a, r) => (make a, r)

def readFields : List Datetime.Field → Reader → Datetime → Except CodeError (Datetime × Reader)
  | [], r, d => .ok (d, r)
  | f :: fields, r, d => do
    let (n, r) ← r.number f.width
    readFields fields r (d.set f n)

def readSwitch (width : CaseWidth) (r : Reader) : Except CodeError (Instruction × Reader) := do
  let (count, r) ← r.u8
  operand (fun entries => .switch ⟨width, entries⟩) (r.take (count.toNat * width.entrySize))

/-- The range stands in one byte, and the literal has as many bytes as the range. -/
def readCompareBlock (r : Reader) : Except CodeError (Instruction × Reader) := do
  let (range, r) ← r.u8
  let first := range >>> 4
  let last := range &&& 0x0f
  if last < first then .error (.invalidBlockRange first last)
  else operand (.compareBlock first last) (r.take (last.toNat - first.toNat + 1))

def readOperands (o : Opcode) (r : Reader) : Except CodeError (Instruction × Reader) :=
  match o with
  | .ldSourceIp => .ok (.loadSourceAddress, r)
  | .ldSourceEid => .ok (.loadSourceEndpoint, r)
  | .ldSourceVal => .ok (.loadSourceValue, r)
  | .ldCurState => .ok (.loadState, r)
  | .ldCurStateTime => .ok (.loadDwell, r)
  | .ldFalse => .ok (.loadFalse, r)
  | .ldTrue => .ok (.loadTrue, r)
  | .ldU8 => operand .loadU8 r.u8
  | .ldU16 => operand .loadU16 r.u16
  | .ldU32 => operand .loadU32 r.u32
  | .ldFloat => operand .loadFloat r.single
  | .ldDt => do
    let (bits, r) ← r.u8
    let mask : Datetime.Mask := ⟨bits⟩
    operand (.loadDatetime mask) (readFields mask.fields r .zero)
  | .ldSysTime => .ok (.loadClock, r)
  | .ldReg => operand .loadRegister r.u8
  | .stReg => operand .storeRegister r.u8
  | .mul => .ok (.arithmetic .mul, r)
  | .div => .ok (.arithmetic .div, r)
  | .mod => .ok (.arithmetic .mod, r)
  | .add => .ok (.arithmetic .add, r)
  | .sub => .ok (.arithmetic .sub, r)
  | .dtDiff => .ok (.datetimeDiff, r)
  | .and => .ok (.bitwise .and, r)
  | .or => .ok (.bitwise .or, r)
  | .xor => .ok (.bitwise .xor, r)
  | .not => .ok (.not, r)
  | .shl => .ok (.bitwise .shl, r)
  | .shr => .ok (.bitwise .shr, r)
  | .dup => .ok (.dup, r)
  | .dupI => operand .dupAt r.u8
  | .rot => .ok (.rot, r)
  | .rotI => operand .rotAt r.u8
  | .dtDecompose => operand (fun bits => .decompose ⟨bits⟩) r.u8
  | .getType => .ok (.typeTag, r)
  | .switch8 => readSwitch .w8 r
  | .switch16 => readSwitch .w16 r
  | .switch32 => readSwitch .w32 r
  | .cmpBlock => readCompareBlock r
  | .cmpIpUndef => .ok (.compareUnspecified, r)
  | .cmpIpLo => .ok (.compareLoopback, r)
  | .cmpLt => .ok (.arithmetic .lt, r)
  | .cmpLe => .ok (.arithmetic .le, r)
  | .cmpGt => .ok (.arithmetic .gt, r)
  | .cmpGe => .ok (.arithmetic .ge, r)
  | .cmpEq => .ok (.arithmetic .eq, r)
  | .cmpNeq => .ok (.arithmetic .neq, r)
  | .cmpDtLt => operand (fun bits => .datetimeCompare .lt ⟨bits⟩) r.u8
  | .cmpDtGe => operand (fun bits => .datetimeCompare .ge ⟨bits⟩) r.u8
  | .convB => .ok (.convert .bool, r)
  | .convU8 => .ok (.convert .u8, r)
  | .convU32 => .ok (.convert .u32, r)
  | .convF => .ok (.convert .float, r)
  | .jnz => operand (fun skip => .jump .nonZero skip false) r.u16
  | .jz => operand (fun skip => .jump .zero skip false) r.u16
  | .jump => operand (fun skip => .jump .always skip false) r.u16
  | .jnzS => operand (fun skip => .jump .nonZero skip.toUInt16 true) r.u8
  | .jzS => operand (fun skip => .jump .zero skip.toUInt16 true) r.u8
  | .jumpS => operand (fun skip => .jump .always skip.toUInt16 true) r.u8
  | .write => .ok (.write, r)
  | .pop => .ok (.pop, r)
  | .retChange => .ok (.changeState, r)
  | .retStay => .ok (.stay, r)

/-- The instruction at `offset` and the number of bytes it takes up. -/
def decode (bytes : Array UInt8) (offset : Nat) : Except CodeError (Instruction × Nat) := do
  let (byte, r) ← Reader.u8 ⟨bytes, offset⟩
  match Opcode.ofByte? byte with
  | none => throw (.invalidOpcode byte offset)
  | some o =>
    let (i, r) ← readOperands o r
    return (i, r.position - offset)

/-! ### Progress -/

theorem operand_eq_ok {α β : Type} {make : α → β} {read : Except CodeError (α × Reader)} {b : β} {r : Reader}
    (h : operand make read = .ok (b, r)) : ∃ a, read = .ok (a, r) ∧ b = make a := by
  cases read with
  | error e => cases h
  | ok p =>
    cases h
    exact ⟨p.1, rfl, rfl⟩

theorem reaches_of_readFields {fields : List Datetime.Field} {r r' : Reader} {d d' : Datetime}
    (h : readFields fields r d = .ok (d', r')) : r.Reaches r' := by
  induction fields generalizing r d with
  | nil =>
    cases h
    exact .refl _
  | cons f fields ih =>
    obtain ⟨⟨n, s⟩, hnumber, hrest⟩ := Reader.bind_eq_ok h
    exact (Reader.reaches_of_number hnumber).trans (ih hrest)

theorem reaches_of_readSwitch {width : CaseWidth} {r r' : Reader} {i : Instruction}
    (h : readSwitch width r = .ok (i, r')) : r.Reaches r' := by
  obtain ⟨⟨count, s⟩, hcount, hrest⟩ := Reader.bind_eq_ok h
  obtain ⟨entries, htake, -⟩ := operand_eq_ok hrest
  exact (Reader.reaches_of_u8 hcount).trans (Reader.reaches_of_take htake)

theorem reaches_of_readCompareBlock {r r' : Reader} {i : Instruction}
    (h : readCompareBlock r = .ok (i, r')) : r.Reaches r' := by
  obtain ⟨⟨range, s⟩, hrange, hrest⟩ := Reader.bind_eq_ok h
  dsimp only at hrest
  split at hrest
  · cases hrest
  · obtain ⟨literal, htake, -⟩ := operand_eq_ok hrest
    exact (Reader.reaches_of_u8 hrange).trans (Reader.reaches_of_take htake)

theorem reaches_of_readOperands {o : Opcode} {r r' : Reader} {i : Instruction}
    (h : readOperands o r = .ok (i, r')) : r.Reaches r' := by
  cases o <;> dsimp only [readOperands] at h
  case ldU8 | ldReg | stReg | dupI | rotI | dtDecompose | cmpDtLt | cmpDtGe | jnzS | jzS | jumpS =>
    obtain ⟨_, hread, -⟩ := operand_eq_ok h
    exact Reader.reaches_of_u8 hread
  case ldU16 | jnz | jz | jump =>
    obtain ⟨_, hread, -⟩ := operand_eq_ok h
    exact Reader.reaches_of_u16 hread
  case ldU32 =>
    obtain ⟨_, hread, -⟩ := operand_eq_ok h
    exact Reader.reaches_of_u32 hread
  case ldFloat =>
    obtain ⟨_, hread, -⟩ := operand_eq_ok h
    exact Reader.reaches_of_single hread
  case ldDt =>
    obtain ⟨⟨bits, s⟩, hbits, hrest⟩ := Reader.bind_eq_ok h
    obtain ⟨value, hfields, -⟩ := operand_eq_ok hrest
    exact (Reader.reaches_of_u8 hbits).trans (reaches_of_readFields hfields)
  case switch8 | switch16 | switch32 => exact reaches_of_readSwitch h
  case cmpBlock => exact reaches_of_readCompareBlock h
  all_goals
    cases h
    exact .refl _

/-- An instruction takes up at least one byte and ends inside the code. -/
theorem decode_bounds {bytes : Array UInt8} {offset length : Nat} {i : Instruction}
    (h : decode bytes offset = .ok (i, length)) : 0 < length ∧ offset + length ≤ bytes.size := by
  obtain ⟨⟨byte, r⟩, hbyte, hrest⟩ := Reader.bind_eq_ok h
  obtain ⟨hbytes, hposition, hle⟩ := Reader.position_of_u8 hbyte
  dsimp only at hrest hposition hle
  split at hrest
  · cases hrest
  · next o _ =>
    obtain ⟨⟨j, r'⟩, hoperands, heq⟩ := Reader.bind_eq_ok hrest
    cases heq
    obtain ⟨-, hstart, hend⟩ := reaches_of_readOperands hoperands
    rw [hbytes] at hend
    dsimp only at hstart hend ⊢
    omega

end RuleMachine.Instruction
