import RuleMachine.Instruction.Decoding
import RuleMachine.Program.Assembly
import RuleMachine.Proofs.Datetime.Mask
import RuleMachine.Proofs.Reader

/-!
# Encoding and decoding are inverse

Decoding accepts exactly the encodings of canonical instructions: those whose operands the form can express and that have nothing it cannot. Every encoding is that of one canonical instruction, the normal form, so decoding is undone by encoding byte for byte, and encoding is undone by decoding up to the normal form, wherever the bytes stand.
-/

namespace RuleMachine

namespace Instruction

/-- Switch tables, the one operand that bytes alone cannot keep well formed, hold whole entries. -/
def IsWhole : Instruction → Prop
  | switch table => table.IsWhole
  | _ => True

/-- The instruction is in normal form and has an encoding that says all of it. -/
structure IsCanonical (i : Instruction) : Prop where
  whole : i.IsWhole
  normal_eq : i.normal = i
  operandError_eq : i.operandError? = none

theorem opcode_normal (i : Instruction) : i.normal.opcode = i.opcode := by
  cases i
  case convert target => cases target <;> rfl
  all_goals rfl

theorem operandBytes_normal (i : Instruction) : i.normal.operandBytes = i.operandBytes := by
  cases i
  case loadDatetime mask value => exact congrArg (mask.bits :: ·) (value.literalBytes_restrict mask)
  all_goals rfl

theorem operandError_normal (i : Instruction) : i.normal.operandError? = i.operandError? := by cases i <;> rfl

/-- The encoded form as it would be if every operand had one. -/
def encoded (i : Instruction) : List UInt8 := i.opcode.toByte :: i.operandBytes

theorem encoded_normal (i : Instruction) : i.normal.encoded = i.encoded := by
  rw [encoded, encoded, opcode_normal, operandBytes_normal]

theorem normal_normal (i : Instruction) : i.normal.normal = i.normal := by
  cases i
  case loadDatetime mask value => exact congrArg (loadDatetime mask) (value.restrict_restrict mask)
  case convert target => cases target <;> rfl
  all_goals rfl

theorem encode_eq_ok_iff {i : Instruction} {bytes : List UInt8} :
    i.encode = .ok bytes ↔ i.operandError? = none ∧ i.encoded = bytes := by
  unfold encode
  cases i.operandError? with
  | none => exact ⟨fun h => ⟨rfl, Except.ok.inj h⟩, fun h => congrArg Except.ok h.2⟩
  | some e => exact ⟨fun h => (nomatch h), fun h => (nomatch h.1)⟩

/-- A well-formed instruction that has an encoding shares it with its normal form, which is canonical. -/
theorem isCanonical_normal {i : Instruction} (hwhole : i.IsWhole) (herror : i.operandError? = none) :
    i.normal.IsCanonical := by
  refine ⟨?_, normal_normal i, (operandError_normal i).trans herror⟩
  cases i <;> exact hwhole

/-! ### Operands -/

theorem operand_eq_ok_iff {α β : Type} {make : α → β} {read : Except CodeError (α × Reader)} {b : β} {r : Reader} :
    operand make read = .ok (b, r) ↔ ∃ a, read = .ok (a, r) ∧ b = make a := by
  constructor
  · exact operand_eq_ok
  · rintro ⟨a, rfl, rfl⟩
    rfl

theorem operand_of_read {α β : Type} (make : α → β) {read : Except CodeError (α × Reader)} {a : α} {r : Reader}
    (h : read = .ok (a, r)) : operand make read = .ok (make a, r) := operand_eq_ok_iff.2 ⟨a, h, rfl⟩

theorem readFields_eq_ok_iff {fields : List Datetime.Field} (hnodup : fields.Nodup) {r r' : Reader}
    (hr : r.position ≤ r.bytes.size) {d d' : Datetime} :
    readFields fields r d = .ok (d', r') ↔
      (∀ f, f ∉ fields → d'.get f = d.get f) ∧
        r.Spans (fields.flatMap fun f => BigEndian.encode f.width (d'.get f)) r' := by
  induction fields generalizing r d with
  | nil =>
    rw [List.flatMap_nil, Reader.spans_nil_iff]
    constructor
    · intro h
      cases h
      exact ⟨fun _ _ => rfl, rfl, hr⟩
    · rintro ⟨hget, rfl, -⟩
      rw [Datetime.eq_of_get_eq fun f => hget f List.not_mem_nil]
      rfl
  | cons f fields ih =>
    obtain ⟨hf, hnodup⟩ := List.nodup_cons.1 hnodup
    rw [List.flatMap_cons, Reader.spans_append_iff, readFields, Except.bind_eq_ok_iff]
    constructor
    · rintro ⟨⟨n, s⟩, hnumber, hrest⟩
      obtain ⟨hlt, hspans⟩ := Reader.number_eq_ok_iff.1 hnumber
      obtain ⟨hget, htail⟩ := (ih hnodup (hspans.bytes_eq ▸ hspans.position_le)).1 hrest
      have hvalue : d'.get f = n := (hget f hf).trans (d.get_set_self hlt)
      refine ⟨fun g hg => ?_, s, hvalue ▸ hspans, htail⟩
      obtain ⟨hne, hg⟩ := List.ne_and_not_mem_of_not_mem_cons hg
      exact (hget g hg).trans (d.get_set_of_ne n hne)
    · rintro ⟨hget, s, hspans, htail⟩
      refine ⟨_, Reader.number_eq_ok_iff.2 ⟨d'.get_lt f, hspans⟩, ?_⟩
      refine (ih hnodup (hspans.bytes_eq ▸ hspans.position_le)).2 ⟨fun g hg => ?_, htail⟩
      by_cases heq : g = f
      · rw [heq, d.get_set_self (d'.get_lt f)]
      · rw [d.get_set_of_ne _ heq, hget g (List.not_mem_cons_of_ne_of_not_mem heq hg)]

theorem readSwitch_eq_ok_iff {width : CaseWidth} {r r' : Reader} {i : Instruction} :
    readSwitch width r = .ok (i, r') ↔
      ∃ table : SwitchTable, i = .switch table ∧ table.width = width ∧ table.IsWhole ∧ table.size ≤ 255 ∧
        r.Spans (UInt8.ofNat table.size :: table.entries) r' := by
  rw [readSwitch, Except.bind_eq_ok_iff]
  constructor
  · rintro ⟨⟨count, s⟩, hcount, hrest⟩
    obtain ⟨entries, htake, rfl⟩ := operand_eq_ok_iff.1 hrest
    obtain ⟨hlength, hspans⟩ := Reader.take_eq_ok_iff.1 htake
    have hsize : SwitchTable.size ⟨width, entries⟩ = count.toNat := by
      rw [SwitchTable.size, hlength, Nat.mul_div_cancel _ width.entrySize_pos]
    refine ⟨⟨width, entries⟩, rfl, rfl, ?_, ?_, ?_⟩
    · rw [SwitchTable.IsWhole, hlength, Nat.mul_mod_left]
    · rw [hsize]
      exact Nat.le_of_lt_succ count.toNat_lt
    · rw [hsize, UInt8.ofNat_toNat]
      exact (Reader.u8_eq_ok_iff.1 hcount).append hspans
  · rintro ⟨table, rfl, rfl, hwhole, hle, hspans⟩
    obtain ⟨s, hcount, hentries⟩ := Reader.spans_cons_iff.1 hspans
    refine ⟨_, Reader.u8_eq_ok_iff.2 hcount, operand_eq_ok_iff.2 ⟨table.entries, Reader.take_eq_ok_iff.2 ⟨?_, hentries⟩, rfl⟩⟩
    rw [UInt8.toNat_ofNat_of_lt' (show table.size < 256 by omega)]
    exact (Nat.div_mul_cancel (Nat.dvd_of_mod_eq_zero hwhole)).symm

/-- A range whose ends fit into half a byte each is read back from the byte that holds them. -/
theorem range_of_halves {first last : UInt8} (hfirst : first ≤ 15) (hlast : last ≤ 15) :
    (first <<< 4 ||| last) >>> 4 = first ∧ (first <<< 4 ||| last) &&& 0x0f = last := by
  have hall : ∀ m n : Fin 16,
      (UInt8.ofNat m <<< 4 ||| UInt8.ofNat n) >>> 4 = UInt8.ofNat m ∧
        (UInt8.ofNat m <<< 4 ||| UInt8.ofNat n) &&& 0x0f = UInt8.ofNat n := by decide
  simpa using hall ⟨first.toNat, Nat.lt_succ_of_le hfirst⟩ ⟨last.toNat, Nat.lt_succ_of_le hlast⟩

theorem halves_of_range (range : UInt8) :
    range &&& 0x0f ≤ 15 ∧ (range >>> 4) <<< 4 ||| range &&& 0x0f = range := by
  have hall : ∀ n : Fin 256, UInt8.ofNat n &&& 0x0f ≤ 15 ∧
      (UInt8.ofNat n >>> 4) <<< 4 ||| UInt8.ofNat n &&& 0x0f = UInt8.ofNat n := by decide +kernel
  simpa using hall ⟨range.toNat, range.toNat_lt⟩

theorem readCompareBlock_eq_ok_iff {r r' : Reader} {i : Instruction} :
    readCompareBlock r = .ok (i, r') ↔
      ∃ first last literal, i = .compareBlock first last literal ∧ first ≤ last ∧ last ≤ 15 ∧
        literal.length = last.toNat - first.toNat + 1 ∧ r.Spans ((first <<< 4 ||| last) :: literal) r' := by
  rw [readCompareBlock, Except.bind_eq_ok_iff]
  constructor
  · rintro ⟨⟨range, s⟩, hrange, hrest⟩
    dsimp only at hrest
    split at hrest
    · cases hrest
    · next hle =>
      obtain ⟨literal, htake, rfl⟩ := operand_eq_ok_iff.1 hrest
      obtain ⟨hlength, hspans⟩ := Reader.take_eq_ok_iff.1 htake
      obtain ⟨hlast, hrejoined⟩ := halves_of_range range
      refine ⟨range >>> 4, range &&& 0x0f, literal, rfl, UInt8.not_lt.1 hle, hlast, hlength, ?_⟩
      rw [hrejoined]
      exact (Reader.u8_eq_ok_iff.1 hrange).append hspans
  · rintro ⟨first, last, literal, rfl, hle, hlast, hlength, hspans⟩
    obtain ⟨s, hrange, hliteral⟩ := Reader.spans_cons_iff.1 hspans
    obtain ⟨hfirst', hlast'⟩ := range_of_halves (UInt8.le_trans hle hlast) hlast
    refine ⟨_, Reader.u8_eq_ok_iff.2 hrange, ?_⟩
    dsimp only
    rw [hfirst', hlast', if_neg (UInt8.not_lt.2 hle)]
    exact operand_eq_ok_iff.2 ⟨literal, Reader.take_eq_ok_iff.2 ⟨hlength, hliteral⟩, rfl⟩

/-! ### Whole instructions -/

theorem shortJump_operandError (condition : JumpCondition) (skip : UInt8) :
    (jump condition skip.toUInt16 true).operandError? = none := by
  have hle : ¬(255 : UInt16) < skip.toUInt16 := by
    rw [UInt16.lt_iff_toNat_lt, UInt8.toNat_toUInt16]
    have := skip.toNat_lt
    change ¬255 < skip.toNat
    omega
  simp [operandError?, hle]

theorem exists_byte_of_shortJump {condition : JumpCondition} {skip : UInt16}
    (h : (jump condition skip true).operandError? = none) : ∃ byte : UInt8, skip = byte.toUInt16 := by
  have hle : skip ≤ 255 := by
    by_contra hgt
    rw [operandError?, if_pos (by simpa using hgt)] at h
    cases h
  refine ⟨skip.toUInt8, ?_⟩
  apply UInt16.toNat.inj
  rw [UInt8.toNat_toUInt16, UInt16.toNat_toUInt8]
  exact (Nat.mod_eq_of_lt (Nat.lt_succ_of_le hle)).symm

theorem compareBlock_operandError_eq_none_iff {first last : UInt8} {literal : List UInt8} :
    (compareBlock first last literal).operandError? = none ↔
      first ≤ last ∧ last ≤ 15 ∧ literal.length = last.toNat - first.toNat + 1 := by
  simp only [operandError?, Bool.or_eq_true, decide_eq_true_eq, ne_eq, ite_not]
  split
  · next hbad =>
    refine ⟨fun h => (nomatch h), fun h => absurd hbad (not_or.2 ⟨?_, ?_⟩)⟩
    · exact UInt8.not_lt.2 h.1
    · exact UInt8.not_lt.2 h.2.1
  · next hgood =>
    rw [not_or, UInt8.not_lt, UInt8.not_lt] at hgood
    simp [hgood]

private theorem canonical_of_readOperands {o : Opcode} {r r' : Reader} {i : Instruction} (hr : r.position ≤ r.bytes.size)
    (h : readOperands o r = .ok (i, r')) : i.opcode = o ∧ i.IsCanonical ∧ r.Spans i.operandBytes r' := by
  cases o <;> dsimp only [readOperands] at h
  case ldU8 | ldReg | stReg | dupI | rotI | dtDecompose | cmpDtLt | cmpDtGe =>
    obtain ⟨n, hread, rfl⟩ := operand_eq_ok_iff.1 h
    exact ⟨rfl, ⟨trivial, rfl, rfl⟩, Reader.u8_eq_ok_iff.1 hread⟩
  case jnzS | jzS | jumpS =>
    obtain ⟨skip, hread, rfl⟩ := operand_eq_ok_iff.1 h
    refine ⟨rfl, ⟨trivial, rfl, shortJump_operandError _ skip⟩, ?_⟩
    change r.Spans [skip.toUInt16.toUInt8] r'
    rw [UInt8.toUInt8_toUInt16]
    exact Reader.u8_eq_ok_iff.1 hread
  case ldU16 | jnz | jz | jump =>
    obtain ⟨n, hread, rfl⟩ := operand_eq_ok_iff.1 h
    exact ⟨rfl, ⟨trivial, rfl, rfl⟩, Reader.u16_eq_ok_iff.1 hread⟩
  case ldU32 =>
    obtain ⟨n, hread, rfl⟩ := operand_eq_ok_iff.1 h
    exact ⟨rfl, ⟨trivial, rfl, rfl⟩, Reader.u32_eq_ok_iff.1 hread⟩
  case ldFloat =>
    obtain ⟨x, hread, rfl⟩ := operand_eq_ok_iff.1 h
    exact ⟨rfl, ⟨trivial, rfl, rfl⟩, Reader.single_eq_ok_iff.1 hread⟩
  case ldDt =>
    obtain ⟨⟨bits, s⟩, hbits, hrest⟩ := Except.bind_eq_ok_iff.1 h
    obtain ⟨value, hfields, rfl⟩ := operand_eq_ok_iff.1 hrest
    have hmask := Reader.u8_eq_ok_iff.1 hbits
    obtain ⟨hget, hspans⟩ :=
      (readFields_eq_ok_iff (Datetime.Mask.nodup_fields _) (hmask.bytes_eq ▸ hmask.position_le)).1 hfields
    have hnormal : value.restrict ⟨bits⟩ = value :=
      Datetime.restrict_eq_self_iff.2 fun f hf => (hget f hf).trans (Datetime.get_zero f)
    exact ⟨rfl, ⟨trivial, congrArg (loadDatetime _) hnormal, rfl⟩, hmask.append hspans⟩
  case switch8 | switch16 | switch32 =>
    obtain ⟨table, rfl, hwidth, hwhole, hle, hspans⟩ := readSwitch_eq_ok_iff.1 h
    exact ⟨congrArg CaseWidth.opcode hwidth, ⟨hwhole, rfl, if_neg (Nat.not_lt.2 hle)⟩, hspans⟩
  case cmpBlock =>
    obtain ⟨first, last, literal, rfl, hle, hlast, hlength, hspans⟩ := readCompareBlock_eq_ok_iff.1 h
    exact ⟨rfl, ⟨trivial, rfl, compareBlock_operandError_eq_none_iff.2 ⟨hle, hlast, hlength⟩⟩, hspans⟩
  all_goals
    cases h
    exact ⟨rfl, ⟨trivial, rfl, rfl⟩, Reader.spans_nil_iff.2 ⟨rfl, hr⟩⟩

private theorem readOperands_of_canonical {r r' : Reader} {i : Instruction} (hi : i.IsCanonical)
    (h : r.Spans i.operandBytes r') : readOperands i.opcode r = .ok (i, r') := by
  obtain ⟨hwhole, hnormal, herror⟩ := hi
  cases i
  case loadU8 | loadRegister | storeRegister | dupAt | rotAt => exact operand_of_read _ (Reader.u8_eq_ok_iff.2 h)
  case decompose mask => exact operand_of_read (fun bits => decompose ⟨bits⟩) (Reader.u8_eq_ok_iff.2 h)
  case loadU16 => exact operand_of_read _ (Reader.u16_eq_ok_iff.2 h)
  case loadU32 => exact operand_of_read _ (Reader.u32_eq_ok_iff.2 h)
  case loadFloat => exact operand_of_read _ (Reader.single_eq_ok_iff.2 h)
  case loadDatetime mask value =>
    obtain ⟨s, hmask, hfields⟩ := Reader.spans_cons_iff.1 h
    have hvalue : value.restrict mask = value := (Instruction.loadDatetime.inj hnormal).2
    refine Except.bind_eq_ok_iff.2 ⟨_, Reader.u8_eq_ok_iff.2 hmask, operand_eq_ok_iff.2 ⟨value, ?_, rfl⟩⟩
    refine (readFields_eq_ok_iff mask.nodup_fields (hmask.bytes_eq ▸ hmask.position_le)).2 ⟨fun f hf => ?_, hfields⟩
    rw [Datetime.get_zero]
    exact Datetime.restrict_eq_self_iff.1 hvalue f hf
  case datetimeCompare order mask =>
    cases order <;> exact operand_of_read (fun bits => datetimeCompare _ ⟨bits⟩) (Reader.u8_eq_ok_iff.2 h)
  case switch table =>
    have hle : table.size ≤ 255 := by
      by_contra hgt
      rw [operandError?, if_pos (Nat.not_le.1 hgt)] at herror
      cases herror
    have hread := readSwitch_eq_ok_iff.2 ⟨table, rfl, rfl, hwhole, hle, h⟩
    obtain ⟨width, entries⟩ := table
    cases width <;> exact hread
  case jump condition skip short =>
    cases short
    case false =>
      cases condition <;> exact operand_of_read (fun skip => jump _ skip false) (Reader.u16_eq_ok_iff.2 h)
    case true =>
      obtain ⟨byte, rfl⟩ := exists_byte_of_shortJump herror
      have hbyte : r.Spans [byte] r' := by
        rw [← UInt8.toUInt8_toUInt16 byte]
        exact h
      cases condition <;> exact operand_of_read (fun skip => jump _ skip.toUInt16 true) (Reader.u8_eq_ok_iff.2 hbyte)
  case compareBlock first last literal =>
    obtain ⟨hle, hlast, hlength⟩ := compareBlock_operandError_eq_none_iff.1 herror
    exact readCompareBlock_eq_ok_iff.2 ⟨first, last, literal, rfl, hle, hlast, hlength, h⟩
  case arithmetic op | bitwise op =>
    obtain ⟨rfl, -⟩ := Reader.spans_nil_iff.1 h
    cases op <;> rfl
  case convert target =>
    obtain ⟨rfl, -⟩ := Reader.spans_nil_iff.1 h
    cases target
    case undefined | datetime | block => cases hnormal
    all_goals rfl
  all_goals
    obtain ⟨rfl, -⟩ := Reader.spans_nil_iff.1 h
    rfl

/-- Operands are read exactly where a canonical instruction with the opcode has left its own. -/
theorem readOperands_eq_ok_iff {o : Opcode} {r r' : Reader} {i : Instruction} (hr : r.position ≤ r.bytes.size) :
    readOperands o r = .ok (i, r') ↔ i.opcode = o ∧ i.IsCanonical ∧ r.Spans i.operandBytes r' := by
  constructor
  · exact canonical_of_readOperands hr
  · intro h
    obtain ⟨rfl, hi, hspans⟩ := h
    exact readOperands_of_canonical hi hspans

/-- Decoding accepts exactly the encodings of canonical instructions, each as that instruction and whole. -/
theorem decode_eq_ok_iff {bytes : Array UInt8} {offset length : Nat} {i : Instruction} :
    decode bytes offset = .ok (i, length) ↔
      i.IsCanonical ∧ Reader.Spans ⟨bytes, offset⟩ i.encoded ⟨bytes, offset + length⟩ := by
  rw [decode, Except.bind_eq_ok_iff, encoded, Reader.spans_cons_iff]
  constructor
  · intro h
    obtain ⟨⟨byte, r⟩, hbyte, hrest⟩ := h
    have hopcode := Reader.u8_eq_ok_iff.1 hbyte
    dsimp only at hrest
    split at hrest
    · cases hrest
    · next o ho =>
      obtain ⟨⟨j, r'⟩, hoperands, heq⟩ := Except.bind_eq_ok_iff.1 hrest
      cases heq
      obtain ⟨rfl, hi, hspans⟩ := (readOperands_eq_ok_iff (hopcode.bytes_eq ▸ hopcode.position_le)).1 hoperands
      refine ⟨hi, r, Opcode.toByte_of_ofByte? ho ▸ hopcode, ?_⟩
      have hend : r' = ⟨bytes, offset + (r'.position - offset)⟩ := by
        have hstart := hopcode.position_eq
        have hstop := hspans.position_eq
        obtain ⟨bytes', position'⟩ := r'
        rw [Reader.mk.injEq]
        refine ⟨hspans.bytes_eq.trans hopcode.bytes_eq, ?_⟩
        dsimp only at hstart hstop ⊢
        omega
      rwa [← hend]
  · intro h
    obtain ⟨hi, r, hopcode, hspans⟩ := h
    refine ⟨_, Reader.u8_eq_ok_iff.2 hopcode, ?_⟩
    dsimp only
    rw [Opcode.ofByte?_toByte]
    refine Except.bind_eq_ok_iff.2 ⟨_, readOperands_of_canonical hi hspans, ?_⟩
    dsimp only
    rw [Nat.add_sub_cancel_left]
    rfl

theorem encoded_ne_nil (i : Instruction) : i.encoded ≠ [] := List.cons_ne_nil _ _

/-- The encoding of a canonical instruction is decoded to it whatever stands before and after. -/
theorem decode_encoded {i : Instruction} (hi : i.IsCanonical) {bytes : Array UInt8} {before after : List UInt8}
    (hbytes : bytes.toList = before ++ i.encoded ++ after) :
    decode bytes before.length = .ok (i, i.encoded.length) :=
  decode_eq_ok_iff.2 ⟨hi, Reader.spans_of_toList_eq hbytes⟩

theorem length_of_decode {bytes : Array UInt8} {offset length : Nat} {i : Instruction}
    (h : decode bytes offset = .ok (i, length)) : length = i.encoded.length :=
  Nat.add_left_cancel (decode_eq_ok_iff.1 h).2.position_eq

/-- Decoding looks at the bytes of the instruction it gives and at no others. -/
theorem decode_of_agree {bytes bytes' : Array UInt8} {offset offset' length : Nat} {i : Instruction}
    (h : decode bytes offset = .ok (i, length)) (hagree : ∀ k < length, bytes'[offset' + k]? = bytes[offset + k]?) :
    decode bytes' offset' = .ok (i, length) := by
  obtain ⟨hi, hspans⟩ := decode_eq_ok_iff.1 h
  obtain rfl := length_of_decode h
  exact decode_eq_ok_iff.2 ⟨hi, hspans.of_agree i.encoded_ne_nil hagree⟩

/-- What was decoded was its encoding. -/
theorem extract_of_decode {bytes : Array UInt8} {offset length : Nat} {i : Instruction}
    (h : decode bytes offset = .ok (i, length)) : (bytes.extract offset (offset + length)).toList = i.encoded :=
  (decode_eq_ok_iff.1 h).2.extract_eq

/-- The opcode of a decoded instruction is that of its first byte. -/
theorem ofByte_of_decode {bytes : Array UInt8} {offset length : Nat} {i : Instruction}
    (h : decode bytes offset = .ok (i, length)) : bytes[offset]?.bind Opcode.ofByte? = some i.opcode := by
  obtain ⟨-, -, hlength, hle, hextract⟩ := decode_eq_ok_iff.1 h
  have hhead : (bytes.extract offset (offset + length))[0]? = some i.opcode.toByte := by
    rw [← Array.getElem?_toList, hextract]
    rfl
  rw [Array.getElem?_extract] at hhead
  split at hhead
  · rw [Nat.add_zero] at hhead
    rw [hhead]
    exact Opcode.ofByte?_toByte i.opcode
  · cases hhead

theorem byte_of_decode {bytes : Array UInt8} {offset length : Nat} {i : Instruction}
    (h : decode bytes offset = .ok (i, length)) : bytes[offset]? = some i.opcode.toByte := by
  obtain ⟨byte, hbyte, hopcode⟩ := Option.bind_eq_some_iff.1 (ofByte_of_decode h)
  rw [hbyte, Opcode.toByte_of_ofByte? hopcode]

/-! ### The two laws -/

/-- `j` says what the encoded form of `i` has room for: the unmasked fields of a datetime literal are zero, and a conversion to a kind without an opcode of its own goes to floats. -/
def IsNormalFormOf (j : Instruction) : Instruction → Prop
  | loadDatetime mask value =>
    ∃ kept, j = loadDatetime mask kept ∧ ∀ f, kept.get f = if mask.selects f then value.get f else 0
  | convert target => j = convert (if target = .bool ∨ target = .u8 ∨ target = .u32 then target else .float)
  | i => j = i

theorem isNormalFormOf_normal (i : Instruction) : i.normal.IsNormalFormOf i := by
  cases i
  case loadDatetime mask value => exact ⟨value.restrict mask, rfl, value.get_restrict mask⟩
  case convert target => cases target <;> rfl
  all_goals rfl

/-- An encoding is decoded to the normal form of its instruction and to its full length, whatever stands before and after it. -/
theorem decode_encode_between (i : Instruction) (hwhole : i.IsWhole) {e : List UInt8} (hencode : i.encode = .ok e)
    (before after : List UInt8) :
    ∃ j : Instruction, j.IsNormalFormOf i ∧ decode (before ++ e ++ after).toArray before.length = .ok (j, e.length) := by
  obtain ⟨herror, rfl⟩ := encode_eq_ok_iff.1 hencode
  refine ⟨i.normal, isNormalFormOf_normal i, ?_⟩
  rw [← encoded_normal]
  exact decode_encoded (isCanonical_normal hwhole herror) rfl

/-- The unused bit of the mask stays, the unmasked minute does not. -/
theorem decode_encode_between_datetime :
    (loadDatetime ⟨0xa4⟩ ⟨1, 2, 7, 4, 5, 2013, 6⟩).encode = .ok [0x0b, 0xa4, 7, 0x07, 0xdd] ∧
      ∃ j : Instruction, j.IsNormalFormOf (loadDatetime ⟨0xa4⟩ ⟨1, 2, 7, 4, 5, 2013, 6⟩) ∧
        decode #[0xff, 0x0b, 0x0b, 0xa4, 7, 0x07, 0xdd, 0x3c] 2 = .ok (j, 5) :=
  ⟨by rfl, decode_encode_between (loadDatetime ⟨0xa4⟩ ⟨1, 2, 7, 4, 5, 2013, 6⟩) trivial (by rfl) [0xff, 0x0b] [0x3c]⟩

/-- A decoded instruction takes up at least a byte inside the code, its opcode is that of the first byte, and appending its encoding appends exactly the bytes it was decoded from; so an instruction has one encoding that is accepted. -/
theorem encode_decode_exact {bytes : Array UInt8} {offset length : Nat} {i : Instruction}
    (h : decode bytes offset = .ok (i, length)) :
    0 < length ∧ offset + length ≤ bytes.size ∧ i.encode = .ok (bytes.extract offset (offset + length)).toList ∧
      (∀ a : Assembly, a.error = none →
        a.append i = { a with code := a.code ++ bytes.extract offset (offset + length) }) ∧
      bytes[offset]?.bind Opcode.ofByte? = some i.opcode ∧
      ∀ (bytes' : Array UInt8) (offset' length' : Nat), decode bytes' offset' = .ok (i, length') →
        bytes'.extract offset' (offset' + length') = bytes.extract offset (offset + length) := by
  have hbounds := decode_bounds h
  have hencode : i.encode = .ok (bytes.extract offset (offset + length)).toList :=
    encode_eq_ok_iff.2 ⟨(decode_eq_ok_iff.1 h).1.operandError_eq, (extract_of_decode h).symm⟩
  refine ⟨hbounds.1, hbounds.2, hencode, fun a ha => ?_, ofByte_of_decode h, fun bytes' offset' length' h' => ?_⟩
  · rw [Assembly.append, ha, hencode]
    refine congrArg (Assembly.mk · none) (Array.toList_inj.1 ?_)
    rw [Array.toList_appendList, Array.toList_append]
  · apply Array.toList_inj.1
    rw [extract_of_decode h, extract_of_decode h']

/-- A comparison of two bytes, read from the middle of the code. -/
theorem encode_decode_exact_compareBlock :
    decode #[0x3c, 0x24, 0xef, 1, 2, 0x3c] 1 = .ok (compareBlock 14 15 [1, 2], 4) ∧
      (0 < 4 ∧ 1 + 4 ≤ (#[0x3c, 0x24, 0xef, 1, 2, 0x3c] : Array UInt8).size ∧
        (compareBlock 14 15 [1, 2]).encode = .ok [0x24, 0xef, 1, 2] ∧
        (∀ a : Assembly, a.error = none →
          a.append (compareBlock 14 15 [1, 2]) = { a with code := a.code ++ #[0x24, 0xef, 1, 2] }) ∧
        (#[0x3c, 0x24, 0xef, 1, 2, 0x3c] : Array UInt8)[1]?.bind Opcode.ofByte? = some .cmpBlock ∧
        ∀ (bytes' : Array UInt8) (offset' length' : Nat),
          decode bytes' offset' = .ok (compareBlock 14 15 [1, 2], length') →
            bytes'.extract offset' (offset' + length') = #[0x24, 0xef, 1, 2]) :=
  ⟨by rfl, @encode_decode_exact #[0x3c, 0x24, 0xef, 1, 2, 0x3c] 1 4 _ (by rfl)⟩

end Instruction

end RuleMachine
