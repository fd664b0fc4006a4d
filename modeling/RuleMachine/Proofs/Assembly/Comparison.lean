import RuleMachine.Proofs.Assembly.Built
import RuleMachine.Proofs.Operator.Blocks

/-!
# Comparisons with a literal

A comparison is assembled from the first byte to compare and a literal. It is accepted when there is something to compare and the literal does not reach beyond the block. Its range is then as long as the literal, so what a run finds in the program answers whether the literal stands in the block from the first byte on.
-/

namespace RuleMachine

namespace Assembly

variable {first : UInt8} {literal : List UInt8}

/-- The last byte of the range is computed without wrapping around, so a literal that reaches beyond a block gets a range that does. -/
theorem operandError_comparison_eq_none_iff :
    (comparison first literal).operandError? = none ↔ literal ≠ [] ∧ first.toNat + literal.length ≤ 16 := by
  rw [comparison, Instruction.compareBlock_operandError_eq_none_iff]
  cases literal with
  | nil => simp
  | cons b literal =>
    have hlast : (UInt8.ofNat (min (first.toNat + (b :: literal).length - 1) 255)).toNat
        = min (first.toNat + (b :: literal).length - 1) 255 :=
      UInt8.toNat_ofNat_of_lt' (Nat.lt_succ_of_le (Nat.min_le_right _ _))
    have hfirst : first.toNat < 256 := first.toNat_lt
    have hnonempty : b :: literal ≠ [] := List.cons_ne_nil b literal
    rw [List.isEmpty_cons, if_neg Bool.false_ne_true, UInt8.le_iff_toNat_le, UInt8.le_iff_toNat_le, hlast,
      and_iff_right hnonempty, List.length_cons]
    change _ ∧ _ ≤ 15 ∧ _ ↔ _
    omega

theorem length_encoded_comparison (first : UInt8) (literal : List UInt8) :
    (comparison first literal).encoded.length = 2 + literal.length := by
  rw [comparison, Instruction.encoded, Instruction.operandBytes, List.length_cons, List.length_cons]
  omega

/-- A comparison that is accepted compares its literal with the bytes of the block from the first one on. -/
theorem exists_answers_comparison (h : (comparison first literal).operandError? = none) (bytes : Block) :
    ∃ answer, (comparison first literal).Answers (.block bytes) answer ∧
      (answer = true ↔ ∀ k < literal.length, bytes[first.toNat + k]? = literal[k]?) := by
  obtain ⟨hfirst, hlast, hlength⟩ := Instruction.compareBlock_operandError_eq_none_iff.1 h
  refine ⟨_, Instruction.answers_compareBlock, ?_⟩
  rw [decide_eq_true_iff, Value.blockRange?_eq_some_iff hfirst hlast hlength]
  simp only [Vector.getElem?_toList]

/-- The comparison of a block with a literal is accepted just when there is a literal and it ends within a block. It is decoded where it was assembled, and answers whether each byte of the literal stands in the block. The comparisons with the two addresses answer what the comparison of the whole block does, and none of these takes anything but a block. -/
theorem comparison_answers_literal (first : UInt8) (literal : List UInt8) :
    (∀ before, (assemble before).error = none →
      ((assemble (before ++ [.compareBlock first literal])).error = none ↔
        literal ≠ [] ∧ first.toNat + literal.length ≤ 16) ∧
      ((assemble before).offset + (2 + literal.length) ≤ 65536 →
        ((∃ p, (assemble (before ++ [.compareBlock first literal])).finish = .ok p) ↔
          literal ≠ [] ∧ first.toNat + literal.length ≤ 16))) ∧
      (∀ before after p, (assemble (before ++ .compareBlock first literal :: after)).finish = .ok p →
        ∃ i, Instruction.decode p.bytes (assemble before).offset = .ok (i, 2 + literal.length) ∧
          ∀ bytes : Block, ∃ answer, i.Answers (.block bytes) answer ∧
            (answer = true ↔ ∀ k < literal.length, bytes[first.toNat + k]? = literal[k]?)) ∧
      (∀ bytes : Block,
        (∃ answer, Instruction.compareUnspecified.Answers (.block bytes) answer ∧
          (Instruction.compareBlock 0 15 (List.replicate 15 0 ++ [0])).Answers (.block bytes) answer) ∧
        ∃ answer, Instruction.compareLoopback.Answers (.block bytes) answer ∧
          (Instruction.compareBlock 0 15 (List.replicate 15 0 ++ [1])).Answers (.block bytes) answer) ∧
      ∀ v : Value, v.kind ≠ .block →
        Instruction.compareUnspecified.Mismatches v ∧ Instruction.compareLoopback.Mismatches v ∧
          ∀ first last literal, (Instruction.compareBlock first last literal).Mismatches v := by
  refine ⟨?_, ?_, ?_, ?_⟩
  · intro before hbefore
    rw [← length_encoded_comparison first, ← operandError_comparison_eq_none_iff]
    exact ⟨concat_error_eq_none_iff hbefore rfl, exists_finish_concat_iff hbefore rfl⟩
  · intro before after p hfinish
    have hdecode := decode_of_finish hfinish rfl trivial
    rw [length_encoded_comparison] at hdecode
    have hencodable : (comparison first literal).operandError? = none :=
      (laidOut_of_finish hfinish).2.2 _ (by simp [Call.instructions])
    exact ⟨comparison first literal, hdecode, exists_answers_comparison hencodable⟩
  · intro bytes
    exact ⟨Instruction.exists_answers_compareAddress bytes fun _ _ => rfl,
      Instruction.exists_answers_compareAddress bytes fun _ _ => rfl⟩
  · intro v hv
    exact ⟨Instruction.mismatches_compareAddress hv fun _ _ => rfl,
      Instruction.mismatches_compareAddress hv fun _ _ => rfl, Instruction.mismatches_compareBlock hv⟩

/-- A literal may end with the block but not behind it. -/
theorem comparison_answers_literal_end :
    (assemble [.compareBlock 15 [0, 1]]).error ≠ none ∧
      (∃ p, (assemble [.compareBlock 14 [0, 1]]).finish = .ok p) ∧
      Instruction.decode #[0, 0, 5, 0, 5, 0x24, 0xef, 0, 1] 5 = .ok (.compareBlock 14 15 [0, 1], 4) ∧
      ∀ around,
        (∃ c', Context.perform
              { Context.start none 32 with stack := ⟨[.block ((Vector.replicate 15 0).push 1)], 32⟩, opcode := .cmpBlock }
              around (.compareBlock 14 15 [0, 1]) = .ok (c', .advance) ∧
            c'.stack.values = [.bool true]) ∧
          Context.perform { Context.start none 32 with stack := ⟨[.u8 1], 32⟩, opcode := .cmpIpLo } around .compareLoopback
            = .error (.typeMismatch .cmpIpLo .u8) := by
  have hbeyond := ((comparison_answers_literal 15 [0, 1]).1 [] rfl).1
  obtain ⟨haccepted, hdecoded, -, hrefused⟩ := comparison_answers_literal 14 [0, 1]
  have hfinish : (assemble [.compareBlock 14 [0, 1]]).finish = .ok ⟨#[0, 0, 5, 0, 5, 0x24, 0xef, 0, 1], by decide⟩ := by
    rfl
  have hdecode : Instruction.decode #[0, 0, 5, 0, 5, 0x24, 0xef, 0, 1] 5 = .ok (.compareBlock 14 15 [0, 1], 4) := by
    rfl
  obtain ⟨i, hi, hanswers⟩ := hdecoded [] [] _ hfinish
  cases hdecode.symm.trans hi
  refine ⟨?_, ((haccepted [] rfl).2 (by decide)).2 (by decide), hdecode, fun around => ⟨?_, ?_⟩⟩
  · intro hnone
    exact absurd (hbeyond.1 hnone).2 (by decide)
  · obtain ⟨answer, hanswer, htrue⟩ := hanswers ((Vector.replicate 15 0).push 1)
    have hbytes : ∀ k < [0, 1].length,
        ((Vector.replicate 15 (0 : UInt8)).push 1)[(14 : UInt8).toNat + k]? = ([0, 1] : List UInt8)[k]? := by
      intro k hk
      obtain rfl | rfl : k = 0 ∨ k = 1 := Nat.le_one_iff_eq_zero_or_eq_one.1 (Nat.le_of_lt_succ hk)
      · rfl
      · rfl
    cases htrue.2 hbytes
    exact ⟨_, hanswer _ around [] rfl rfl (by decide), rfl⟩
  · exact (hrefused (.u8 1) (by decide)).2.1 _ around [] rfl rfl

end Assembly

end RuleMachine
