import RuleMachine.Proofs.Program.Header
import RuleMachine.Proofs.Script.Basic

/-!
# The program of a script

What is assembled from some calls is the program of the script that they spell: the encodings of its instructions one after another behind a header with the offsets of its entries. So decoding at the offset of an index gives the instruction of that index, and decoding at the end of the program gives nothing.
-/

namespace RuleMachine

open Assembly (Call Layout)

namespace Script

variable {s : Script} {l : Layout} {p : Program}

/-! ### The layout of a script -/

/-- The layout is that of the instructions, with the entries where the script has them. -/
structure Spells (s : Script) (l : Layout) : Prop where
  body_eq : l.body = s.instructions.flatMap Instruction.encoded
  entries_eq : ∀ entry, l.entries entry = s.offset (s.entries entry)
  entries_le : ∀ entry, s.entries entry ≤ s.instructions.length

theorem spells_empty : empty.Spells .start := ⟨rfl, fun _ => rfl, fun _ => Nat.le_refl _⟩

theorem size_eq (s : Script) : s.size = Program.headerSize + (s.instructions.flatMap Instruction.encoded).length := by
  rw [size, offset, List.take_length]

theorem Spells.mark {entry : Entry} (h : s.Spells l) : (s.apply (.mark entry)).Spells (l.apply (.mark entry)) := by
  refine ⟨h.body_eq, ?_, ?_⟩
  · intro e
    simp only [apply, Layout.apply]
    by_cases he : e = entry
    · rw [he, Function.update_self, Function.update_self, Layout.size, h.body_eq, ← size_eq]
      rfl
    · rw [Function.update_of_ne he, Function.update_of_ne he]
      exact h.entries_eq e
  · intro e
    simp only [apply]
    by_cases he : e = entry
    · rw [he, Function.update_self]
    · rw [Function.update_of_ne he]
      exact h.entries_le e

theorem Spells.append {instructions : List Instruction} (h : s.Spells l) :
    Spells { s with instructions := s.instructions ++ instructions.map Instruction.normal }
      { l with body := l.body ++ instructions.flatMap Instruction.encoded } := by
  refine ⟨?_, ?_, ?_⟩
  · rw [List.flatMap_append, h.body_eq, List.flatMap_map]
    simp only [Instruction.encoded_normal]
  · intro entry
    rw [offset, List.take_append_of_le_length (h.entries_le entry)]
    exact h.entries_eq entry
  · intro entry
    rw [List.length_append]
    exact (h.entries_le entry).trans (Nat.le_add_right _ _)

theorem Spells.apply {call : Call} (h : s.Spells l) (hraw : ∀ bytes, call ≠ .raw bytes) :
    (s.apply call).Spells (l.apply call) := by
  cases call with
  | mark entry => exact h.mark
  | append i => exact h.append
  | appendAll instructions => exact h.append
  | switch width cases => exact h.append
  | compareBlock first literal => exact h.append
  | raw bytes => exact absurd rfl (hraw bytes)

theorem Spells.foldl {calls : List Call} (h : s.Spells l) (hraw : ∀ bytes, .raw bytes ∉ calls) :
    (calls.foldl Script.apply s).Spells (calls.foldl Layout.apply l) := by
  induction calls generalizing s l with
  | nil => exact h
  | cons call calls ih =>
    refine ih (h.apply ?_) ?_
    · intro bytes hcall
      exact hraw bytes (hcall ▸ List.mem_cons_self)
    · intro bytes hmem
      exact hraw bytes (List.mem_cons_of_mem _ hmem)

theorem instructions_foldl (calls : List Call) :
    (calls.foldl Script.apply s).instructions
      = s.instructions ++ (calls.flatMap Call.instructions).map Instruction.normal := by
  induction calls generalizing s with
  | nil => simp
  | cons call calls ih =>
    rw [List.foldl_cons, ih, List.flatMap_cons, List.map_append, ← List.append_assoc]
    congr 1
    cases call <;> simp [apply, Call.instructions]

/-! ### The program of a script -/

/-- The program consists of the encodings of the instructions, all canonical, behind a header with the entries. -/
structure IsProgram (s : Script) (p : Program) : Prop where
  bytes_eq : p.bytes.toList = Layout.bytes
    ⟨fun entry => s.offset (s.entries entry), s.instructions.flatMap Instruction.encoded⟩
  canonical : ∀ i ∈ s.instructions, i.IsCanonical
  entries_le : ∀ entry, s.entries entry ≤ s.instructions.length
  entries_lt : ∀ entry, s.offset (s.entries entry) < 65536

theorem isProgram_of_finish {calls : List Call} (hraw : ∀ bytes, .raw bytes ∉ calls)
    (hwhole : ∀ i ∈ calls.flatMap Call.instructions, i.IsWhole)
    (hfinish : (Assembly.assemble calls).finish = .ok p) : (ofCalls calls).IsProgram p := by
  obtain ⟨hbytes, hlt, hencodable⟩ := Assembly.laidOut_of_finish hfinish
  have hspells : (ofCalls calls).Spells (Assembly.layout calls) := spells_empty.foldl hraw
  have hentries : (Assembly.layout calls).entries = fun entry => (ofCalls calls).offset ((ofCalls calls).entries entry) :=
    funext hspells.entries_eq
  refine ⟨?_, ?_, hspells.entries_le, ?_⟩
  · rw [hbytes, ← hentries, ← hspells.body_eq]
  · intro i hi
    rw [ofCalls, instructions_foldl] at hi
    obtain ⟨j, hj, rfl⟩ := List.mem_map.1 hi
    exact Instruction.isCanonical_normal (hwhole j hj) (hencodable j hj)
  · intro entry
    rw [← hspells.entries_eq]
    exact hlt entry

variable (hp : s.IsProgram p)

include hp

theorem IsProgram.size_eq : p.size = s.size := by
  rw [Program.size, ← Array.length_toList, hp.bytes_eq, Layout.length_bytes, s.size_eq]
  rfl

/-- At the offset of an index stands the instruction of that index. -/
theorem IsProgram.decode_offset {index : Nat} {i : Instruction} (hi : s.instructions[index]? = some i) :
    Instruction.decode p.bytes (s.offset index) = .ok (i, i.encoded.length) := by
  obtain ⟨hlt, rfl⟩ := List.getElem?_eq_some_iff.1 hi
  have hsplit : s.instructions.flatMap Instruction.encoded = (s.instructions.take index).flatMap Instruction.encoded
      ++ s.instructions[index].encoded ++ (s.instructions.drop (index + 1)).flatMap Instruction.encoded := by
    rw [List.append_assoc, ← List.flatMap_cons, ← List.drop_eq_getElem_cons hlt, ← List.flatMap_append,
      List.take_append_drop]
  have hbytes := hp.bytes_eq
  rw [Layout.bytes, hsplit, ← List.append_assoc, ← List.append_assoc, ← List.cons_append, ← List.cons_append] at hbytes
  have hdecode := Instruction.decode_encoded (hp.canonical _ (List.getElem_mem hlt)) hbytes
  rw [List.length_cons, List.length_append, List.length_append, BigEndian.length_encode, BigEndian.length_encode] at hdecode
  rw [offset, Program.headerSize, ← hdecode]
  congr 1
  omega

theorem IsProgram.decode_size : Instruction.decode p.bytes s.size = .error (.unexpectedEnd s.size) := by
  have htake : Reader.take ⟨p.bytes, s.size⟩ 1 = .error (.unexpectedEnd s.size) := by
    rw [← hp.size_eq, Reader.take, Program.size, if_neg (Nat.not_succ_le_self _), Nat.max_self]
  rw [Instruction.decode, Reader.u8, Reader.number, htake]
  rfl

theorem IsProgram.entryOffset_eq (entry : Entry) :
    p.entryOffset entry = .ok (UInt16.ofNat (s.offset (s.entries entry))) :=
  Program.entryOffset_of_header hp.bytes_eq (hp.entries_lt entry)

end Script

end RuleMachine
