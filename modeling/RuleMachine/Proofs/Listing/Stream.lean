import RuleMachine.Program.Listing
import RuleMachine.Proofs.Instruction.RoundTrip

/-!
# Code as a sequence of instructions

Code is read from an offset on by decoding one instruction behind the other, and there is only one way to do that: it comes to the end of the code, or to the first place where nothing is decoded. Read to the end, the code is the encodings of the instructions, and any instructions with these encodings are the ones that are read, up to their normal forms.
-/

namespace RuleMachine

namespace Instruction

/-- From `offset` to `stop` these instructions are decoded, each directly behind the one before it. -/
inductive Decodes (bytes : Array UInt8) : Nat → List Instruction → Nat → Prop
  | nil {offset : Nat} : Decodes bytes offset [] offset
  | cons {offset length stop : Nat} {i : Instruction} {rest : List Instruction}
      (hdecode : decode bytes offset = .ok (i, length)) (hrest : Decodes bytes (offset + length) rest stop) :
    Decodes bytes offset (i :: rest) stop

/-- The instructions with their offsets, the first one at `offset`. -/
def locatedFrom (offset : Nat) : List Instruction → List (Nat × Instruction)
  | [] => []
  | i :: rest => (offset, i) :: locatedFrom (offset + i.encoded.length) rest

variable {bytes : Array UInt8} {offset stop : Nat} {instructions : List Instruction}

theorem map_snd_locatedFrom (offset : Nat) (instructions : List Instruction) :
    (locatedFrom offset instructions).map Prod.snd = instructions := by
  induction instructions generalizing offset with
  | nil => rfl
  | cons i rest ih => rw [locatedFrom, List.map_cons, ih]

theorem getElem?_locatedFrom {index : Nat} {i : Instruction} (h : instructions[index]? = some i) :
    (locatedFrom offset instructions)[index]? =
      some (offset + ((instructions.take index).flatMap encoded).length, i) := by
  induction instructions generalizing offset index with
  | nil => cases h
  | cons first rest ih =>
    cases index with
    | zero =>
      cases h
      rfl
    | succ index =>
      rw [locatedFrom, List.getElem?_cons_succ, ih h, List.take_succ_cons, List.flatMap_cons, List.length_append,
        Nat.add_assoc]

/-! ### Reading and encoding -/

theorem Decodes.canonical (h : Decodes bytes offset instructions stop) : ∀ i ∈ instructions, i.IsCanonical := by
  induction h with
  | nil => simp
  | cons hdecode hrest ih => exact List.forall_mem_cons.2 ⟨(decode_eq_ok_iff.1 hdecode).1, ih⟩

/-- What is read are the encodings of the instructions. -/
theorem Decodes.spans (h : Decodes bytes offset instructions stop) (hoffset : offset ≤ bytes.size) :
    Reader.Spans ⟨bytes, offset⟩ (instructions.flatMap encoded) ⟨bytes, stop⟩ := by
  induction h with
  | nil => exact Reader.spans_nil_iff.2 ⟨rfl, hoffset⟩
  | cons hdecode hrest ih =>
    rw [List.flatMap_cons]
    exact (decode_eq_ok_iff.1 hdecode).2.append (ih (decode_bounds hdecode).2)

/-- Behind the encodings of the instructions before it stands the opcode of each instruction. -/
theorem Decodes.getElem?_eq (h : Decodes bytes offset instructions stop) {index : Nat} {i : Instruction}
    (hi : instructions[index]? = some i) :
    bytes[offset + ((instructions.take index).flatMap encoded).length]? = some i.opcode.toByte := by
  induction h generalizing index with
  | nil => cases hi
  | @cons offset length stop first rest hdecode hrest ih =>
    cases index with
    | zero =>
      cases hi
      exact byte_of_decode hdecode
    | succ index =>
      rw [List.take_succ_cons, List.flatMap_cons, List.length_append, ← length_of_decode hdecode, ← Nat.add_assoc]
      exact ih hi

/-- The encodings of canonical instructions are read as these instructions. -/
theorem decodes_of_spans (hcanonical : ∀ i ∈ instructions, i.IsCanonical)
    (h : Reader.Spans ⟨bytes, offset⟩ (instructions.flatMap encoded) ⟨bytes, stop⟩) :
    Decodes bytes offset instructions stop := by
  induction instructions generalizing offset with
  | nil =>
    cases (Reader.spans_nil_iff.1 h).1
    exact .nil
  | cons i rest ih =>
    obtain ⟨hi, hrest⟩ := List.forall_mem_cons.1 hcanonical
    obtain ⟨⟨bytes', middle⟩, hfirst, hbehind⟩ := h.cut
    have hmiddle : (⟨bytes', middle⟩ : Reader) = ⟨bytes, offset + i.encoded.length⟩ :=
      (Reader.mk.injEq ..).mpr ⟨hfirst.bytes_eq, hfirst.position_eq⟩
    rw [hmiddle] at hfirst hbehind
    exact .cons (decode_eq_ok_iff.2 ⟨hi, hfirst⟩) (ih hrest hbehind)

/-! ### Where reading ends -/

/-- Reading comes to the end of the code or to where nothing is decoded. -/
theorem exists_decodes (hoffset : offset ≤ bytes.size) :
    ∃ instructions stop, Decodes bytes offset instructions stop ∧
      (stop = bytes.size ∨ stop < bytes.size ∧ ∃ e, decode bytes stop = .error e) := by
  -- The bytes ahead get fewer with every instruction.
  induction hn : bytes.size - offset using Nat.strongRecOn generalizing offset with
  | ind n ih =>
    rcases Nat.eq_or_lt_of_le hoffset with hend | hlt
    · exact ⟨[], offset, .nil, .inl hend⟩
    · rcases hdecode : decode bytes offset with e | ⟨i, length⟩
      · exact ⟨[], offset, .nil, .inr ⟨hlt, e, hdecode⟩⟩
      · obtain ⟨hpos, hle⟩ := decode_bounds hdecode
        obtain ⟨rest, stop, hrest, hstop⟩ := ih (bytes.size - (offset + length)) (by omega) hle rfl
        exact ⟨i :: rest, stop, .cons hdecode hrest, hstop⟩

end Instruction

open Instruction (Decodes locatedFrom)

namespace Program

variable {bytes : Array UInt8} {offset stop : Nat} {instructions : List Instruction}

theorem instructionsFrom_of_decode {i : Instruction} {length : Nat}
    (hdecode : Instruction.decode bytes offset = .ok (i, length)) (before : Array (Nat × Instruction)) :
    instructionsFrom bytes offset before = instructionsFrom bytes (offset + length) (before.push (offset, i)) := by
  have hbounds := Instruction.decode_bounds hdecode
  rw [instructionsFrom, if_pos (by omega)]
  split
  · next h => cases h.symm.trans hdecode
  · next h =>
    cases h.symm.trans hdecode
    rfl

theorem instructionsFrom_of_refused {e : CodeError} (hlt : offset < bytes.size)
    (hdecode : Instruction.decode bytes offset = .error e) (before : Array (Nat × Instruction)) :
    instructionsFrom bytes offset before = .error e := by
  rw [instructionsFrom, if_pos hlt]
  split
  · next h =>
    cases h.symm.trans hdecode
    rfl
  · next h => cases h.symm.trans hdecode

/-- What can be read first is passed over, and listed. -/
theorem instructionsFrom_of_decodes (h : Decodes bytes offset instructions stop) (before : Array (Nat × Instruction)) :
    instructionsFrom bytes offset before =
      instructionsFrom bytes stop (before ++ (locatedFrom offset instructions).toArray) := by
  induction h generalizing before with
  | nil => simp [locatedFrom]
  | @cons offset length stop i rest hdecode hrest ih =>
    rw [instructionsFrom_of_decode hdecode, ih, locatedFrom, Instruction.length_of_decode hdecode]
    simp

theorem instructionsFrom_of_end (hend : bytes.size ≤ offset) (before : Array (Nat × Instruction)) :
    instructionsFrom bytes offset before = .ok before := by
  rw [instructionsFrom, if_neg (Nat.not_lt.2 hend)]

end Program

end RuleMachine
