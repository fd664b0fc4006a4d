import RuleMachine.Proofs.Instruction.RoundTrip

/-!
# Writing into a buffer

An instruction is written behind what a buffer holds, one byte or number after another, once its operands have been found to have a form. What is written is its encoding and does not depend on the buffer; what is refused is refused before the first byte. Refused are just the instructions whose normal form no bytes are decoded to.
-/

namespace RuleMachine

/-! ### Buffers -/

/-- Bytes are put behind those that the buffer holds. -/
abbrev Writer := StateM (Array UInt8)

namespace Writer

def push (b : UInt8) : Writer Unit := modify fun out => out.push b

def extend (bytes : List UInt8) : Writer Unit := modify fun (out : Array UInt8) => out ++ bytes

/-- The writer puts these bytes into the buffer, whatever it holds. -/
def Writes (w : Writer Unit) (bytes : List UInt8) : Prop := ∀ out, (w.run out).run = ((), out ++ bytes)

theorem writes_nil : Writes (pure ()) [] := by
  intro out
  simp

theorem writes_push (b : UInt8) : (push b).Writes [b] := by
  intro out
  simp [push]

theorem writes_extend (bytes : List UInt8) : (extend bytes).Writes bytes := fun _ => rfl

theorem Writes.seq {v w : Writer Unit} {left right : List UInt8} (hv : v.Writes left) (hw : w.Writes right) :
    Writes (do v; w) (left ++ right) := by
  intro out
  have hrun : (StateT.run (do v; w) out).run = (w.run (v.run out).run.2).run := rfl
  have happend : out ++ left ++ right = out ++ (left ++ right) := by
    apply Array.toList_inj.1
    simp
  rw [hrun, hv out, hw (out ++ left), happend]

/-- What is written for those that are picked comes one after the other. -/
theorem Writes.forM {α : Type} {emit : α → Writer Unit} {bytes : α → List UInt8} (h : ∀ a, (emit a).Writes (bytes a))
    (pick : α → Bool) (as : List α) :
    (forM as fun a => if pick a then emit a else pure ()).Writes ((as.filter pick).flatMap bytes) := by
  induction as with
  | nil => exact writes_nil
  | cons a as ih =>
    rw [List.forM_cons]
    by_cases hpick : pick a = true
    · rw [if_pos hpick, List.filter_cons_of_pos hpick, List.flatMap_cons]
      exact (h a).seq ih
    · rw [if_neg hpick, List.filter_cons_of_neg hpick]
      exact writes_nil.seq ih

end Writer

namespace Instruction

open Writer

/-- Each field that the mask selects, when its turn comes. -/
def emitFields (mask : Datetime.Mask) (value : Datetime) : Writer Unit :=
  forM Datetime.Field.all fun f => if mask.selects f then extend (BigEndian.encode f.width (value.get f)) else pure ()

def emitOperands : Instruction → Writer Unit
  | loadU8 n | loadRegister n | storeRegister n | dupAt n | rotAt n => push n
  | loadU16 n => extend (BigEndian.encode 2 n.toNat)
  | loadU32 n => extend (BigEndian.encode 4 n.toNat)
  | loadFloat x => extend (BigEndian.encode 4 x.bits.toNat)
  | loadDatetime mask value => do
    push mask.bits
    emitFields mask value
  | datetimeCompare _ mask | decompose mask => push mask.bits
  | switch table => do
    push (UInt8.ofNat table.size)
    extend table.entries
  | jump _ skip short => if short then push skip.toUInt8 else extend (BigEndian.encode 2 skip.toNat)
  | compareBlock first last literal => do
    push (first <<< 4 ||| last)
    extend literal
  | _ => pure ()

def checkOperands (i : Instruction) : Except CodeError Unit :=
  match i.operandError? with
  | some e => .error e
  | none => .ok ()

/-- Writes the instruction into the buffer, or refuses it. -/
def emit (i : Instruction) : ExceptT CodeError Writer Unit := do
  i.checkOperands
  push i.opcode.toByte
  i.emitOperands

theorem checkOperands_eq (i : Instruction) : i.checkOperands = i.encode.map fun _ => () := by
  unfold checkOperands encode
  cases i.operandError? <;> rfl

theorem writes_emitFields (mask : Datetime.Mask) (value : Datetime) :
    (emitFields mask value).Writes (value.literalBytes mask) :=
  Writes.forM (fun _ => writes_extend _) mask.selects Datetime.Field.all

theorem writes_emitOperands (i : Instruction) : i.emitOperands.Writes i.operandBytes := by
  cases i
  case loadDatetime mask value => exact (writes_push mask.bits).seq (writes_emitFields mask value)
  case switch table => exact (writes_push _).seq (writes_extend table.entries)
  case compareBlock first last literal => exact (writes_push _).seq (writes_extend literal)
  case jump condition skip short =>
    cases short
    · exact writes_extend _
    · exact writes_push _
  case loadU16 | loadU32 | loadFloat => exact writes_extend _
  case loadU8 | loadRegister | storeRegister | dupAt | rotAt | datetimeCompare | decompose => exact writes_push _
  all_goals exact writes_nil

theorem emit_of_error {i : Instruction} {e : CodeError} (h : i.encode = .error e) (out : Array UInt8) :
    (i.emit.run.run out).run = (.error e, out) := by
  have hcheck : i.checkOperands = .error e := by rw [checkOperands_eq, h]; rfl
  rw [emit, hcheck]
  rfl

theorem emit_of_ok {i : Instruction} {bytes : List UInt8} (h : i.encode = .ok bytes) (out : Array UInt8) :
    (i.emit.run.run out).run = (.ok (), out ++ bytes) := by
  have hcheck : i.checkOperands = .ok () := by rw [checkOperands_eq, h]; rfl
  have hwrites : Writes (do push i.opcode.toByte; i.emitOperands) bytes := by
    rw [← (encode_eq_ok_iff.1 h).2]
    exact (writes_push i.opcode.toByte).seq i.writes_emitOperands
  rw [emit, hcheck]
  have hbuffer := congrArg Prod.snd (hwrites out)
  exact Prod.ext rfl hbuffer

/-! ### What is refused -/

/-- An instruction has one normal form. -/
theorem IsNormalFormOf.eq_normal {i j : Instruction} (h : j.IsNormalFormOf i) : j = i.normal := by
  cases i
  case loadDatetime mask value =>
    obtain ⟨kept, rfl, hkept⟩ := h
    have heq : kept = value.restrict mask :=
      Datetime.eq_of_get_eq fun f => (hkept f).trans (value.get_restrict mask f).symm
    rw [heq]
    rfl
  case convert target => cases target <;> exact h
  all_goals exact h

theorem exists_decode_of_encode {i : Instruction} (hwhole : i.IsWhole) {bytes : List UInt8} (h : i.encode = .ok bytes) :
    decode bytes.toArray 0 = .ok (i.normal, bytes.length) := by
  obtain ⟨herror, rfl⟩ := encode_eq_ok_iff.1 h
  rw [← encoded_normal]
  exact @decode_encoded _ (isCanonical_normal hwhole herror) _ [] [] (by simp)

/-- Refused are the instructions whose normal form is decoded nowhere. -/
theorem exists_encode_error_iff {i : Instruction} (hwhole : i.IsWhole) :
    (∃ e, i.encode = .error e) ↔
      ∀ (bytes : Array UInt8) (offset length : Nat) (j : Instruction), j.IsNormalFormOf i →
        decode bytes offset ≠ .ok (j, length) := by
  constructor
  · rintro ⟨e, herror⟩ bytes offset length j hj hdecode
    obtain rfl := hj.eq_normal
    have hnone := (decode_eq_ok_iff.1 hdecode).1.operandError_eq
    rw [operandError_normal] at hnone
    cases herror.symm.trans (encode_eq_ok_iff.2 ⟨hnone, rfl⟩)
  · intro hnever
    rcases hencode : i.encode with e | bytes
    · exact ⟨e, rfl⟩
    · exact absurd (exists_decode_of_encode hwhole hencode) (hnever _ _ _ _ (isNormalFormOf_normal i))

/-- Refused are just the instructions whose normal form no bytes are decoded to at any offset. A refusal leaves the buffer, and the code of an assembly, as it is; otherwise they get the encoding behind what they hold, which is one byte at least and the same for all of them. -/
theorem encode_refuses_unrepresentable (i : Instruction) (hwhole : i.IsWhole) :
    ((∃ e, i.encode = .error e) ↔
      ∀ (bytes : Array UInt8) (offset length : Nat) (j : Instruction), j.IsNormalFormOf i →
        decode bytes offset ≠ .ok (j, length)) ∧
      (∀ e, i.encode = .error e →
        (∀ out, (i.emit.run.run out).run = (.error e, out)) ∧
          ∀ a : Assembly, a.error = none → a.append i = { a with error := some e }) ∧
      ∀ bytes, i.encode = .ok bytes →
        bytes ≠ [] ∧ (∀ out, (i.emit.run.run out).run = (.ok (), out ++ bytes)) ∧
          ∀ a : Assembly, a.error = none → a.append i = { a with code := a.code ++ bytes } := by
  refine ⟨exists_encode_error_iff hwhole, ?_, ?_⟩
  · intro e herror
    refine ⟨emit_of_error herror, fun a ha => ?_⟩
    rw [Assembly.append, ha, herror]
    rfl
  · intro bytes hencode
    refine ⟨?_, emit_of_ok hencode, fun a ha => ?_⟩
    · rw [← (encode_eq_ok_iff.1 hencode).2]
      exact i.encoded_ne_nil
    · rw [Assembly.append, ha, hencode]
      rfl

/-- A literal that is too short for its range is refused, one that has its length is written. -/
theorem encode_refuses_unrepresentable_compareBlock :
    ((compareBlock 14 15 [1]).encode = .error (.blockLengthMismatch 2 1) ∧
        ((compareBlock 14 15 [1]).emit.run.run #[0x3c]).run = (.error (.blockLengthMismatch 2 1), #[0x3c]) ∧
        ∀ (bytes : Array UInt8) (offset length : Nat), decode bytes offset ≠ .ok (compareBlock 14 15 [1], length)) ∧
      (compareBlock 14 15 [1, 2]).encode = .ok [0x24, 0xef, 1, 2] ∧
        ((compareBlock 14 15 [1, 2]).emit.run.run #[0x3c]).run = (.ok (), #[0x3c, 0x24, 0xef, 1, 2]) := by
  have hshort : (compareBlock 14 15 [1]).encode = .error (.blockLengthMismatch 2 1) := rfl
  have hwhole : (compareBlock 14 15 [1, 2]).encode = .ok [0x24, 0xef, 1, 2] := rfl
  obtain ⟨hiff, hrefused, -⟩ := encode_refuses_unrepresentable (compareBlock 14 15 [1]) trivial
  obtain ⟨-, -, hwritten⟩ := encode_refuses_unrepresentable (compareBlock 14 15 [1, 2]) trivial
  refine ⟨⟨hshort, (hrefused _ hshort).1 _, ?_⟩, hwhole, (hwritten _ hwhole).2.1 _⟩
  intro bytes offset length
  exact hiff.1 ⟨_, hshort⟩ bytes offset length _ rfl

end Instruction

end RuleMachine
