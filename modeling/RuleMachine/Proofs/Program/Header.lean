import RuleMachine.Program.Basic
import RuleMachine.Proofs.Reader

/-!
# The header of a program

What the header says is what its bytes spell: a program that begins with the supported version and two offsets of two bytes each has these entries, and it is a valid one exactly when both of them lie in its code.
-/

namespace RuleMachine.Program

variable {p : Program}

/-! ### The bytes of the header -/

section

variable {offsets : Entry → Nat} {body : List UInt8}
  (hbytes : p.bytes.toList =
    supportedVersion :: (BigEndian.encode 2 (offsets .packet) ++ BigEndian.encode 2 (offsets .periodic) ++ body))

include hbytes

theorem version_of_header : p.version = .ok supportedVersion := by
  have hspans := @Reader.spans_of_toList_eq _ [] [supportedVersion] _ hbytes
  exact Except.bind_eq_ok_iff.2 ⟨_, Reader.u8_eq_ok_iff.2 hspans, rfl⟩

theorem spans_entry_of_header (entry : Entry) :
    ∃ r, Reader.Spans ⟨p.bytes, entry.headerOffset⟩ (BigEndian.encode 2 (offsets entry)) r := by
  cases entry with
  | packet =>
    rw [List.append_assoc] at hbytes
    exact ⟨_, @Reader.spans_of_toList_eq _ [_] (BigEndian.encode 2 _) _ hbytes⟩
  | periodic =>
    have hspans := @Reader.spans_of_toList_eq _ (_ :: BigEndian.encode 2 _) (BigEndian.encode 2 _) _ hbytes
    rw [List.length_cons, BigEndian.length_encode] at hspans
    exact ⟨_, hspans⟩

/-- An entry that two bytes can hold is read as it was written. -/
theorem entryOffset_of_header {entry : Entry} (hlt : offsets entry < 65536) :
    p.entryOffset entry = .ok (UInt16.ofNat (offsets entry)) := by
  obtain ⟨r, hspans⟩ := spans_entry_of_header hbytes entry
  rw [← UInt16.toNat_ofNat_of_lt' hlt] at hspans
  exact Except.bind_eq_ok_iff.2
    ⟨_, version_of_header hbytes, Except.bind_eq_ok_iff.2 ⟨_, Reader.u16_eq_ok_iff.2 hspans, rfl⟩⟩

end

/-- Both entries are there to be read behind the supported version, if there is a whole header. -/
theorem entryOffset_of_version (hversion : p.version = .ok supportedVersion) (hheader : headerSize ≤ p.size)
    (entry : Entry) : ∃ offset, p.entryOffset entry = .ok offset := by
  have hroom : entry.headerOffset + 2 ≤ p.bytes.size := by
    rw [headerSize, size] at hheader
    cases entry <;> simp only [Entry.headerOffset] <;> omega
  have htake : Reader.take ⟨p.bytes, entry.headerOffset⟩ 2 = .ok
      ((p.bytes.extract entry.headerOffset (entry.headerOffset + 2)).toList, ⟨p.bytes, entry.headerOffset + 2⟩) := by
    rw [Reader.take, if_pos hroom]
  rw [entryOffset, hversion, Except.ok_bind, Reader.u16, Reader.number, htake]
  exact ⟨_, rfl⟩

/-! ### The check of the header -/

theorem checkEntry_eq_ok_iff {entry : Entry} :
    p.checkEntry entry = .ok () ↔
      ∃ offset, p.entryOffset entry = .ok offset ∧ headerSize ≤ offset.toNat ∧ offset.toNat < p.size := by
  rw [checkEntry, Except.bind_eq_ok_iff]
  refine exists_congr fun offset => and_congr_right fun _ => ?_
  split
  · next hrange => exact iff_of_true rfl hrange
  · next hrange =>
    refine iff_of_false ?_ hrange
    intro h
    cases h

/-- Both entries of a program with a right header lie in its code. -/
theorem validate_eq_ok_iff :
    p.validate = .ok () ↔
      ∀ entry, ∃ offset, p.entryOffset entry = .ok offset ∧ headerSize ≤ offset.toNat ∧ offset.toNat < p.size := by
  rw [validate, Except.bind_eq_ok_iff]
  constructor
  · rintro ⟨⟨⟩, hpacket, hperiodic⟩ entry
    cases entry with
    | packet => exact checkEntry_eq_ok_iff.1 hpacket
    | periodic => exact checkEntry_eq_ok_iff.1 hperiodic
  · intro h
    exact ⟨(), checkEntry_eq_ok_iff.2 (h .packet), checkEntry_eq_ok_iff.2 (h .periodic)⟩

end RuleMachine.Program
