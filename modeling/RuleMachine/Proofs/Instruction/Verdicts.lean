import RuleMachine.Proofs.Instruction.Refusal

/-!
# What decoding says of longer and of shorter code

An instruction is decoded from its own bytes alone, so it is decoded wherever these stand, and no shorter front of it is decoded: no encoding is the front of another. The end of the code is told by where it is; the other refusals are told by bytes that are there, so more bytes behind them change nothing.
-/

namespace RuleMachine

/-- The bytes run from 0 to 0x3c. -/
theorem Opcode.ofByte?_eq_none_iff {byte : UInt8} : ofByte? byte = none ↔ 0x3c < byte := by
  have hlength : all.length = (0x3c : UInt8).toNat + 1 := rfl
  rw [ofByte?, List.getElem?_eq_none_iff, hlength, Nat.succ_le_iff, UInt8.lt_iff_toNat_lt]

namespace Instruction

variable {bytes : Array UInt8} {offset : Nat}

/-! ### Refusals for bytes that are there -/

theorem decode_eq_invalidOpcode_iff {byte : UInt8} {place : Nat} :
    decode bytes offset = .error (.invalidOpcode byte place) ↔
      place = offset ∧ bytes[offset]? = some byte ∧ 0x3c < byte := by
  rw [← Opcode.ofByte?_eq_none_iff]
  constructor
  · intro h
    cases refuses_of_decode h with
    | opcode hbyte hunknown => exact ⟨rfl, hbyte, hunknown⟩
  · rintro ⟨rfl, hbyte, hunknown⟩
    refine Except.bind_eq_error_iff.2 (.inr ⟨_, Reader.u8_eq_ok_iff_getElem?.2 ⟨rfl, hbyte⟩, ?_⟩)
    dsimp only
    rw [hunknown]
    rfl

theorem decode_eq_invalidBlockRange_iff {first last : UInt8} :
    decode bytes offset = .error (.invalidBlockRange first last) ↔
      bytes[offset]? = some Opcode.cmpBlock.toByte ∧
        ∃ range : UInt8, bytes[offset + 1]? = some range ∧ range &&& (0x0f : UInt8) < range >>> 4 ∧
          first = range >>> 4 ∧ last = range &&& 0x0f := by
  constructor
  · intro h
    cases refuses_of_decode h with
    | range hbyte hrange hlt => exact ⟨hbyte, _, hrange, hlt, rfl, rfl⟩
  · rintro ⟨hbyte, range, hrange, hlt, rfl, rfl⟩
    refine Except.bind_eq_error_iff.2 (.inr ⟨_, Reader.u8_eq_ok_iff_getElem?.2 ⟨rfl, hbyte⟩, ?_⟩)
    dsimp only
    rw [Opcode.ofByte?_toByte]
    refine Except.bind_eq_error_iff.2 (.inl ?_)
    refine Except.bind_eq_error_iff.2 (.inr ⟨_, Reader.u8_eq_ok_iff_getElem?.2 ⟨rfl, hrange⟩, ?_⟩)
    exact if_pos hlt

theorem stop_of_unexpectedEnd {stop : Nat} (h : decode bytes offset = .error (.unexpectedEnd stop)) :
    stop = max bytes.size offset := by
  cases refuses_of_decode h with
  | ended => rfl

/-- A refusal that is not for the end of the code is for bytes that are there. -/
theorem decode_error_of_agree {bytes' : Array UInt8} {e : CodeError} (h : decode bytes offset = .error e)
    (hend : e ≠ .unexpectedEnd (max bytes.size offset))
    (hagree : ∀ (k : Nat) (byte : UInt8), bytes[k]? = some byte → bytes'[k]? = some byte) : decode bytes' offset = .error e := by
  cases refuses_of_decode h with
  | ended => exact absurd rfl hend
  | opcode hbyte hunknown =>
    exact decode_eq_invalidOpcode_iff.2 ⟨rfl, hagree _ _ hbyte, Opcode.ofByte?_eq_none_iff.1 hunknown⟩
  | range hbyte hrange hlt =>
    exact decode_eq_invalidBlockRange_iff.2 ⟨hagree _ _ hbyte, _, hagree _ _ hrange, hlt, rfl, rfl⟩

theorem decode_error_append {e : CodeError} (h : decode bytes offset = .error e)
    (hend : e ≠ .unexpectedEnd (max bytes.size offset)) (more : Array UInt8) :
    decode (bytes ++ more) offset = .error e := by
  refine decode_error_of_agree h hend ?_
  intro k byte hbyte
  obtain ⟨hlt, -⟩ := Array.getElem?_eq_some_iff.1 hbyte
  rw [Array.getElem?_append_left hlt, hbyte]

/-! ### Cutting the code short -/

theorem getElem?_of_getElem?_extract {k stop : Nat} {byte : UInt8} (h : (bytes.extract 0 stop)[k]? = some byte) :
    bytes[k]? = some byte := by
  rw [Array.getElem?_extract, Nat.zero_add] at h
  split at h
  · exact h
  · cases h

theorem decode_of_cut {length stop : Nat} {i : Instruction} (h : decode bytes offset = .ok (i, length))
    (hle : offset ≤ stop) (hlt : stop < offset + length) :
    decode (bytes.extract 0 stop) offset = .error (.unexpectedEnd stop) := by
  have hbounds := decode_bounds h
  have hsize : (bytes.extract 0 stop).size = stop := by
    rw [Array.size_extract]
    omega
  have hagree := fun k byte => @getElem?_of_getElem?_extract bytes k stop byte
  cases hcut : decode (bytes.extract 0 stop) offset with
  | ok decoded =>
    -- It would be the same instruction, which does not fit.
    obtain ⟨j, length'⟩ := decoded
    have hbounds' := decode_bounds hcut
    rw [hsize] at hbounds'
    have hsame : decode bytes offset = .ok (j, length') := decode_of_agree hcut fun k hk => by
      rw [Array.getElem?_extract, if_pos (by omega), Nat.zero_add]
    cases h.symm.trans hsame
    omega
  | error e =>
    by_cases hend : e = .unexpectedEnd (max (bytes.extract 0 stop).size offset)
    · rw [hend, hsize, Nat.max_eq_left hle]
    · cases h.symm.trans (decode_error_of_agree hcut hend hagree)

/-- An instruction is decoded wherever its bytes stand, and where they break off the end of the code is reported. That is the end of the code or the offset behind it for whatever code and offset, also where adding to the offset would go beyond the addresses there are. Bytes behind the code change no other refusal, and an unknown opcode is refused exactly where there is a byte above 0x3c. -/
theorem decode_prefix_free (bytes : Array UInt8) (offset : Nat) :
    (∀ i length, decode bytes offset = .ok (i, length) →
      (∀ (bytes' : Array UInt8) (offset' : Nat), (∀ k < length, bytes'[offset' + k]? = bytes[offset + k]?) →
        decode bytes' offset' = .ok (i, length)) ∧
        ∀ stop, offset ≤ stop → stop < offset + length →
          decode (bytes.extract 0 stop) offset = .error (.unexpectedEnd stop)) ∧
      ((∀ stop, decode bytes offset = .error (.unexpectedEnd stop) → stop = max bytes.size offset) ∧
        ∀ top position n, bytes.size < top →
          Reader.takeChecked top ⟨bytes, position⟩ n = Reader.take ⟨bytes, position⟩ n) ∧
      (∀ byte place more, decode bytes offset = .error (.invalidOpcode byte place) →
        decode (bytes ++ more) offset = .error (.invalidOpcode byte place)) ∧
      (∀ first last more, decode bytes offset = .error (.invalidBlockRange first last) →
        decode (bytes ++ more) offset = .error (.invalidBlockRange first last)) ∧
      ∀ byte place, decode bytes offset = .error (.invalidOpcode byte place) ↔
        place = offset ∧ bytes[offset]? = some byte ∧ 0x3c < byte := by
  refine ⟨?_, ⟨?_, ?_⟩, ?_, ?_, ?_⟩
  · intro i length h
    exact ⟨fun bytes' offset' hagree => decode_of_agree h hagree, fun stop hle hlt => decode_of_cut h hle hlt⟩
  · intro stop h
    exact stop_of_unexpectedEnd h
  · intro top position n hsize
    exact Reader.takeChecked_eq_take hsize n
  · intro byte place more h
    exact decode_error_append h (by simp) more
  · intro first last more h
    exact decode_error_append h (by simp) more
  · intro byte place
    exact decode_eq_invalidOpcode_iff

/-- A comparison of two bytes, and the same cut off before the second. -/
theorem decode_prefix_free_compareBlock :
    decode #[0x3c, 0x24, 0xef, 1, 2, 0x3c] 1 = .ok (compareBlock 14 15 [1, 2], 4) ∧
      decode #[0x3c, 0x24, 0xef, 1] 1 = .error (.unexpectedEnd 4) := by
  have hdecode : decode #[0x3c, 0x24, 0xef, 1, 2, 0x3c] 1 = .ok (compareBlock 14 15 [1, 2], 4) := rfl
  obtain ⟨hwhole, -⟩ := decode_prefix_free #[0x3c, 0x24, 0xef, 1, 2, 0x3c] 1
  exact ⟨hdecode, (hwhole _ _ hdecode).2 4 (by decide) (by decide)⟩

end Instruction

end RuleMachine
