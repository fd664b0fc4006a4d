import RuleMachine.Proofs.Run.Depth

/-!
# Comparing blocks

A range of a block is compared byte by byte: it answers true exactly when each byte of the literal stands in the block, counted from the first of the range. The two comparisons with well-known addresses are comparisons of the whole block. Performed on the stack, each of them puts its answer in place of a block and refuses anything else.
-/

namespace RuleMachine

namespace Value

variable {bytes : Block} {first last : UInt8} {literal : List UInt8}

/-- The bytes of a range are those of a literal of its length if they agree one by one. -/
theorem blockRange?_eq_some_iff (hrange : first ≤ last) (hlast : last ≤ 15)
    (hlength : literal.length = last.toNat - first.toNat + 1) :
    blockRange? bytes first last = some literal ↔
      ∀ k < literal.length, bytes.toList[first.toNat + k]? = literal[k]? := by
  have hle : first.toNat ≤ last.toNat := hrange
  have hlt : last.toNat < 16 := Nat.lt_succ_of_le hlast
  have hget (k : Nat) (hk : k < literal.length) :
      ((bytes.toList.take (last.toNat + 1)).drop first.toNat)[k]? = bytes.toList[first.toNat + k]? := by
    rw [List.getElem?_drop, List.getElem?_take_of_lt (by omega)]
  rw [blockRange?, if_pos ⟨by omega, hlt⟩, Option.some.injEq]
  constructor
  · rintro rfl k hk
    exact (hget k hk).symm
  · intro hbytes
    apply List.ext_getElem?
    intro k
    by_cases hk : k < literal.length
    · rw [hget k hk, hbytes k hk]
    · -- The range has the length of the literal, so both have ended.
      have hend : ((bytes.toList.take (last.toNat + 1)).drop first.toNat).length ≤ k := by
        rw [List.length_drop, List.length_take]
        omega
      rw [List.getElem?_eq_none hend, List.getElem?_eq_none (Nat.not_lt.1 hk)]

theorem blockRange?_whole (bytes : Block) : blockRange? bytes 0 15 = some bytes.toList := by
  have hlength : bytes.toList.length = 16 := Vector.length_toList
  change some ((bytes.toList.take 16).drop 0) = some bytes.toList
  rw [List.drop_zero, List.take_of_length_le (Nat.le_of_eq hlength)]

theorem toList_eq_address_iff (bytes : Block) (last : UInt8) :
    bytes.toList = List.replicate 15 0 ++ [last] ↔ (∀ b ∈ bytes.toList.take 15, b = 0) ∧ bytes[15]? = some last := by
  have hlength : bytes.toList.length = 16 := Vector.length_toList
  have hbytes : bytes.toList = bytes.toList.take 15 ++ [bytes[15]] := by
    rw [← Vector.getElem_toList (by rw [hlength]; decide), List.take_append_getElem,
      List.take_of_length_le (Nat.le_of_eq hlength)]
  have hzeros : (bytes.toList.take 15).length = 15 := by
    rw [List.length_take, hlength]
    rfl
  have hsplit : bytes.toList = List.replicate 15 0 ++ [last] ↔
      bytes.toList.take 15 ++ [bytes[15]] = List.replicate 15 0 ++ [last] := by rw [← hbytes]
  rw [hsplit, List.append_singleton_inj, List.eq_replicate_iff, and_iff_right hzeros, Vector.getElem?_eq_getElem,
    Option.some.injEq]

/-- An address is compared like a whole block with fifteen zeros and the last byte. -/
theorem compareAddress_block (bytes : Block) (opcode : Opcode) (last : UInt8) :
    (block bytes).compareAddress opcode last = (block bytes).compareBlock 0 15 (List.replicate 15 0 ++ [last]) := by
  have hanswer : ((bytes.toList.take 15).all (· == 0) && bytes[15] == last)
      = decide (some bytes.toList = some (List.replicate 15 0 ++ [last])) := by
    rw [Bool.eq_iff_iff, decide_eq_true_iff, Option.some.injEq, toList_eq_address_iff]
    simp
  change Except.ok (bool ((bytes.toList.take 15).all (· == 0) && bytes[15] == last))
    = .ok (bool (decide (blockRange? bytes 0 15 = some (List.replicate 15 0 ++ [last]))))
  rw [hanswer, blockRange?_whole]

theorem blockBytes_of_kind {v : Value} (hv : v.kind ≠ .block) (opcode : Opcode) :
    v.blockBytes opcode = .error (.typeMismatch opcode v.kind) := by
  cases v
  case block bytes => exact absurd rfl hv
  all_goals rfl

end Value

/-! ### Comparisons on the stack -/

namespace Instruction

/-- Performed with this value on top of the stack, the instruction puts the answer in its place and goes on. -/
def Answers (i : Instruction) (v : Value) (answer : Bool) : Prop :=
  ∀ (c : Context) (around : Surroundings) (rest : List Value), c.opcode = i.opcode → c.stack.values = v :: rest →
    c.stack.depth ≤ c.stack.limit →
      c.perform around i = .ok ({ c with stack := { c.stack with values := .bool answer :: rest } }, .advance)

/-- Performed with this value on top of the stack, the instruction refuses its kind under its own opcode. -/
def Mismatches (i : Instruction) (v : Value) : Prop :=
  ∀ (c : Context) (around : Surroundings) (rest : List Value), c.opcode = i.opcode → c.stack.values = v :: rest →
    c.perform around i = .error (.typeMismatch i.opcode v.kind)

theorem answers_compareBlock {bytes : Block} {first last : UInt8} {literal : List UInt8} :
    (compareBlock first last literal).Answers (.block bytes) (Value.blockRange? bytes first last = some literal) := by
  intro c around rest _ hvalues hdepth
  change c.mapTop (fun v => v.compareBlock first last literal) = _
  exact Context.mapTop_of_values hvalues hdepth rfl

theorem mismatches_compareBlock {v : Value} (hv : v.kind ≠ .block) (first last : UInt8) (literal : List UInt8) :
    (compareBlock first last literal).Mismatches v := by
  intro c around rest _ hvalues
  change c.mapTop (fun v => v.compareBlock first last literal) = _
  refine Context.mapTop_of_refused hvalues ?_
  rw [Value.compareBlock, Value.blockBytes_of_kind hv]
  rfl

/-- The comparison with an address gives the answer of the comparison of the whole block. -/
theorem exists_answers_compareAddress (bytes : Block) {i : Instruction} {last : UInt8}
    (hi : ∀ (c : Context) around, c.perform around i = c.mapTop fun v => v.compareAddress c.opcode last) :
    ∃ answer, i.Answers (.block bytes) answer ∧
      (compareBlock 0 15 (List.replicate 15 0 ++ [last])).Answers (.block bytes) answer := by
  refine ⟨_, ?_, answers_compareBlock⟩
  intro c around rest _ hvalues hdepth
  rw [hi]
  exact Context.mapTop_of_values hvalues hdepth (Value.compareAddress_block bytes c.opcode last)

theorem mismatches_compareAddress {v : Value} (hv : v.kind ≠ .block) {i : Instruction} {last : UInt8}
    (hi : ∀ (c : Context) around, c.perform around i = c.mapTop fun v => v.compareAddress c.opcode last) :
    i.Mismatches v := by
  intro c around rest hopcode hvalues
  rw [hi, ← hopcode]
  refine Context.mapTop_of_refused hvalues ?_
  rw [Value.compareAddress, Value.blockBytes_of_kind hv]
  rfl

end Instruction

end RuleMachine
