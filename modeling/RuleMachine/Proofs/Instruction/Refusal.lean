import RuleMachine.Proofs.Instruction.RoundTrip

/-!
# Why code is not decoded

Decoding is refused for three reasons: the bytes give out, the first of them is no opcode, or a block comparison has its range the wrong way round. Whichever operand the bytes give out in, what is reported is where they end; the other two reasons are told by bytes that are there.
-/

namespace RuleMachine

namespace Reader

variable {r : Reader} {e : CodeError}

theorem take_eq_error {n : Nat} (h : r.take n = .error e) : e = .unexpectedEnd (max r.bytes.size r.position) := by
  unfold take at h
  split at h
  · cases h
  · cases h
    rfl

theorem number_eq_error {width : Nat} (h : r.number width = .error e) :
    e = .unexpectedEnd (max r.bytes.size r.position) :=
  take_eq_error (Except.eq_error_of_bind h fun _ => ⟨_, rfl⟩)

theorem u8_eq_error (h : r.u8 = .error e) : e = .unexpectedEnd (max r.bytes.size r.position) :=
  number_eq_error (Except.eq_error_of_bind h fun _ => ⟨_, rfl⟩)

theorem u16_eq_error (h : r.u16 = .error e) : e = .unexpectedEnd (max r.bytes.size r.position) :=
  number_eq_error (Except.eq_error_of_bind h fun _ => ⟨_, rfl⟩)

theorem u32_eq_error (h : r.u32 = .error e) : e = .unexpectedEnd (max r.bytes.size r.position) :=
  number_eq_error (Except.eq_error_of_bind h fun _ => ⟨_, rfl⟩)

theorem single_eq_error (h : r.single = .error e) : e = .unexpectedEnd (max r.bytes.size r.position) :=
  u32_eq_error (Except.eq_error_of_bind h fun _ => ⟨_, rfl⟩)

end Reader

namespace Instruction

theorem operand_eq_error_iff {α β : Type} {make : α → β} {read : Except CodeError (α × Reader)} {e : CodeError} :
    operand make read = .error e ↔ read = .error e := Except.map_eq_error_iff

theorem readFields_eq_error {fields : List Datetime.Field} {r : Reader} (hr : r.position ≤ r.bytes.size) {d : Datetime}
    {e : CodeError} (h : readFields fields r d = .error e) : e = .unexpectedEnd r.bytes.size := by
  induction fields generalizing r d with
  | nil => cases h
  | cons f fields ih =>
    rcases Except.bind_eq_error_iff.1 h with hnumber | ⟨⟨n, s⟩, hnumber, hrest⟩
    · rw [Reader.number_eq_error hnumber, Nat.max_eq_left hr]
    · have hspans := (Reader.number_eq_ok_iff.1 hnumber).2
      rw [ih (hspans.bytes_eq ▸ hspans.position_le) hrest, hspans.bytes_eq]

theorem readSwitch_eq_error {width : CaseWidth} {r : Reader} (hr : r.position ≤ r.bytes.size) {e : CodeError}
    (h : readSwitch width r = .error e) : e = .unexpectedEnd r.bytes.size := by
  rcases Except.bind_eq_error_iff.1 h with hcount | ⟨⟨count, s⟩, hcount, hrest⟩
  · rw [Reader.u8_eq_error hcount, Nat.max_eq_left hr]
  · have hspans := Reader.u8_eq_ok_iff.1 hcount
    have htake := Reader.take_eq_error (operand_eq_error_iff.1 hrest)
    rwa [hspans.bytes_eq, Nat.max_eq_left hspans.position_le] at htake

/-- Operands are refused where the bytes give out, and a block comparison also for its range. -/
inductive RefusesOperands (r : Reader) : Opcode → CodeError → Prop
  | ended {o : Opcode} : RefusesOperands r o (.unexpectedEnd r.bytes.size)
  | range {range : UInt8} (hrange : r.bytes[r.position]? = some range) (hlt : range &&& (0x0f : UInt8) < range >>> 4) :
    RefusesOperands r .cmpBlock (.invalidBlockRange (range >>> 4) (range &&& 0x0f))

theorem RefusesOperands.of_ended {r : Reader} {o : Opcode} {e : CodeError} (hr : r.position ≤ r.bytes.size)
    (h : e = .unexpectedEnd (max r.bytes.size r.position)) : RefusesOperands r o e := by
  rw [h, Nat.max_eq_left hr]
  exact .ended

theorem refuses_of_readCompareBlock {r : Reader} (hr : r.position ≤ r.bytes.size) {e : CodeError}
    (h : readCompareBlock r = .error e) : RefusesOperands r .cmpBlock e := by
  rcases Except.bind_eq_error_iff.1 h with hrange | ⟨⟨range, s⟩, hrange, hrest⟩
  · exact .of_ended hr (Reader.u8_eq_error hrange)
  · dsimp only at hrest
    split at hrest
    · next hlt =>
      cases hrest
      exact .range (Reader.u8_eq_ok_iff_getElem?.1 hrange).2 hlt
    · have hspans := Reader.u8_eq_ok_iff.1 hrange
      have htake := Reader.take_eq_error (operand_eq_error_iff.1 hrest)
      rw [hspans.bytes_eq, Nat.max_eq_left hspans.position_le] at htake
      exact htake ▸ .ended

theorem refuses_of_readOperands {o : Opcode} {r : Reader} (hr : r.position ≤ r.bytes.size) {e : CodeError}
    (h : readOperands o r = .error e) : RefusesOperands r o e := by
  cases o <;> dsimp only [readOperands] at h
  case ldU8 | ldReg | stReg | dupI | rotI | dtDecompose | cmpDtLt | cmpDtGe | jnzS | jzS | jumpS =>
    exact .of_ended hr (Reader.u8_eq_error (operand_eq_error_iff.1 h))
  case ldU16 | jnz | jz | jump => exact .of_ended hr (Reader.u16_eq_error (operand_eq_error_iff.1 h))
  case ldU32 => exact .of_ended hr (Reader.u32_eq_error (operand_eq_error_iff.1 h))
  case ldFloat => exact .of_ended hr (Reader.single_eq_error (operand_eq_error_iff.1 h))
  case ldDt =>
    rcases Except.bind_eq_error_iff.1 h with hbits | ⟨⟨bits, s⟩, hbits, hrest⟩
    · exact .of_ended hr (Reader.u8_eq_error hbits)
    · have hspans := Reader.u8_eq_ok_iff.1 hbits
      have hfields := readFields_eq_error (hspans.bytes_eq ▸ hspans.position_le) (operand_eq_error_iff.1 hrest)
      rw [hspans.bytes_eq] at hfields
      exact hfields ▸ .ended
  case switch8 | switch16 | switch32 => exact readSwitch_eq_error hr h ▸ .ended
  case cmpBlock => exact refuses_of_readCompareBlock hr h
  all_goals cases h

/-- The reasons for which decoding at an offset is refused, each with the bytes that show it. -/
inductive Refuses (bytes : Array UInt8) (offset : Nat) : CodeError → Prop
  | ended : Refuses bytes offset (.unexpectedEnd (max bytes.size offset))
  | opcode {byte : UInt8} (hbyte : bytes[offset]? = some byte) (hunknown : Opcode.ofByte? byte = none) :
    Refuses bytes offset (.invalidOpcode byte offset)
  | range {range : UInt8} (hbyte : bytes[offset]? = some Opcode.cmpBlock.toByte)
      (hrange : bytes[offset + 1]? = some range) (hlt : range &&& (0x0f : UInt8) < range >>> 4) :
    Refuses bytes offset (.invalidBlockRange (range >>> 4) (range &&& 0x0f))

theorem refuses_of_decode {bytes : Array UInt8} {offset : Nat} {e : CodeError} (h : decode bytes offset = .error e) :
    Refuses bytes offset e := by
  rcases Except.bind_eq_error_iff.1 h with hbyte | ⟨⟨byte, r⟩, hbyte, hrest⟩
  · exact Reader.u8_eq_error hbyte ▸ .ended
  · obtain ⟨rfl, hget⟩ := Reader.u8_eq_ok_iff_getElem?.1 hbyte
    obtain ⟨hsize, -⟩ := Array.getElem?_eq_some_iff.1 hget
    dsimp only at hrest hsize
    split at hrest
    · next hunknown =>
      cases hrest
      exact .opcode hget hunknown
    · next o ho =>
      have hoperands := Except.eq_error_of_bind hrest fun _ => ⟨_, rfl⟩
      cases @refuses_of_readOperands o ⟨bytes, offset + 1⟩ hsize _ hoperands with
      | ended =>
        rw [← Nat.max_eq_left (Nat.le_of_lt hsize)]
        exact .ended
      | range hrange hlt =>
        rw [← Opcode.toByte_of_ofByte? ho] at hget
        exact .range hget hrange hlt

end Instruction

end RuleMachine
