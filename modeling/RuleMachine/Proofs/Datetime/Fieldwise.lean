import Mathlib.Data.List.Forall2
import Mathlib.Data.Nat.Bitwise
import RuleMachine.Operator
import RuleMachine.Proofs.Instruction.RoundTrip

/-!
# One meaning of a mask

Datetimes are compared, taken apart and written as literals by a mask, and each of these goes over the fields in an order of its own. What the mask selects is a matter of its bits, one for each field and none for the highest, so a comparison says of all selected fields what taking apart shows of each, and a literal keeps what they can see.
-/

namespace RuleMachine

namespace Datetime

variable {a b c d e : Datetime} {m n : Mask}

/-! ### Bits -/

/-- The bits of the fields are in the order in which literals have the fields. -/
theorem Field.toNat_bit (f : Field) : f.bit.toNat = 2 ^ Field.all.idxOf f := by cases f <;> rfl

namespace Mask

theorem selects_eq_testBit (m : Mask) (f : Field) : m.selects f = m.bits.toNat.testBit (Field.all.idxOf f) := by
  rw [Bool.eq_iff_iff, selects, contains, decide_eq_true_iff, ← UInt8.toNat_inj, UInt8.toNat_and, Field.toNat_bit,
    Nat.and_two_pow]
  have hpos : 0 < 2 ^ Field.all.idxOf f := Nat.two_pow_pos _
  cases m.bits.toNat.testBit (Field.all.idxOf f) <;> simp [hpos.ne]

theorem mem_fields_iff_testBit {m : Mask} {f : Field} :
    f ∈ m.fields ↔ m.bits.toNat.testBit (Field.all.idxOf f) = true := by rw [mem_fields, selects_eq_testBit]

theorem selects_union (m n : Mask) (f : Field) : (m.union n).selects f = (m.selects f || n.selects f) := by
  rw [selects_eq_testBit, selects_eq_testBit, selects_eq_testBit, union, UInt8.toNat_or, Nat.testBit_or]

/-- A mask that contains another selects what the other does. -/
theorem selects_of_contains {f : Field} (h : m.contains n = true) (hf : n.selects f = true) : m.selects f = true := by
  rw [contains, decide_eq_true_iff] at h
  rw [selects, contains, decide_eq_true_iff] at hf ⊢
  rw [← hf, ← UInt8.and_assoc, h]

end Mask

/-! ### Comparing -/

theorem fieldwiseGe_iff : a.fieldwiseGe b m = true ↔ ∀ f, m.selects f = true → b.get f ≤ a.get f := by
  simp only [fieldwiseGe, List.all_eq_true, Mask.mem_fields, decide_eq_true_iff]

theorem fieldwiseGe_refl (a : Datetime) (m : Mask) : a.fieldwiseGe a m = true :=
  fieldwiseGe_iff.2 fun _ _ => Nat.le_refl _

theorem fieldwiseGe_trans (hab : a.fieldwiseGe b m = true) (hbc : b.fieldwiseGe c m = true) :
    a.fieldwiseGe c m = true := by
  rw [fieldwiseGe_iff] at hab hbc ⊢
  exact fun f hf => Nat.le_trans (hbc f hf) (hab f hf)

theorem fieldwiseGe_union (a b : Datetime) (m n : Mask) :
    a.fieldwiseGe b (m.union n) = (a.fieldwiseGe b m && a.fieldwiseGe b n) := by
  rw [Bool.eq_iff_iff, Bool.and_eq_true, fieldwiseGe_iff, fieldwiseGe_iff, fieldwiseGe_iff, ← forall_and]
  simp only [Mask.selects_union, Bool.or_eq_true, or_imp]

/-! ### Taking apart -/

theorem Field.mem_pushOrder (f : Field) : f ∈ Field.pushOrder := by cases f <;> decide

/-- Every field fits into the word that it is pushed as. -/
theorem toNat_ofNat_get (d : Datetime) (f : Field) : (UInt32.ofNat (d.get f)).toNat = d.get f := by
  have hlt : d.get f < 256 ^ f.width := d.get_lt f
  have hwidth : 256 ^ f.width ≤ UInt32.size := by cases f <;> decide
  exact UInt32.toNat_ofNat_of_lt' (Nat.lt_of_lt_of_le hlt hwidth)

theorem forall₂_decompose_iff {r : UInt32 → UInt32 → Prop} :
    List.Forall₂ r (a.decompose m) (b.decompose m) ↔
      ∀ f, m.selects f = true → r (UInt32.ofNat (a.get f)) (UInt32.ofNat (b.get f)) := by
  rw [decompose, decompose, List.forall₂_map_left_iff, List.forall₂_map_right_iff, List.forall₂_same]
  simp only [List.mem_filter, Field.mem_pushOrder, true_and]

theorem fieldwiseGe_iff_decompose :
    a.fieldwiseGe b m = true ↔ List.Forall₂ (· ≥ ·) (a.decompose m) (b.decompose m) := by
  rw [fieldwiseGe_iff, forall₂_decompose_iff]
  simp only [ge_iff_le, UInt32.le_iff_toNat_le, toNat_ofNat_get]

theorem decompose_congr (h : ∀ f, m.selects f = true → d.get f = e.get f) : d.decompose m = e.decompose m := by
  refine List.map_congr_left fun f hf => ?_
  rw [h f (List.mem_filter.1 hf).2]

/-! ### Literals -/

/-- A restriction is not told from the whole by a mask that selects no other fields. -/
theorem get_restrict_of_subset {f : Field} (hsub : n.fields ⊆ m.fields) (hf : n.selects f = true) :
    (d.restrict m).get f = d.get f := by
  have hmem : f ∈ m.fields := hsub (Mask.mem_fields.2 hf)
  rw [get_restrict, if_pos (Mask.mem_fields.1 hmem)]

/-- What the instruction that loads a literal is written as and read from again, wherever it stands. -/
theorem decode_literal (d : Datetime) (m : Mask) (before after : List UInt8) :
    ∃ bytes, (Instruction.loadDatetime m d).encode = .ok bytes ∧
      Instruction.decode (before ++ bytes ++ after).toArray before.length =
        .ok (.loadDatetime m (d.restrict m), bytes.length) := by
  have hcanonical : (Instruction.loadDatetime m d).normal.IsCanonical := Instruction.isCanonical_normal trivial rfl
  refine ⟨_, Instruction.encode_eq_ok_iff.2 ⟨rfl, rfl⟩, ?_⟩
  rw [← Instruction.encoded_normal]
  exact Instruction.decode_encoded hcanonical rfl

/-- The bits of a mask stand for the fields in their order. One datetime is fieldwise no less than another just if that shows in what they are taken apart into. Comparisons by two masks are one by their union, a comparison is reflexive and transitive, and the two instructions that compare say the opposite. The literal that is written by a mask and read again is zero elsewhere, and no mask that selects no more can tell it from what was written. -/
theorem mask_has_one_meaning (a b c : Datetime) (m n : Mask) :
    (∀ f, f ∈ m.fields ↔ m.bits.toNat.testBit (Field.all.idxOf f) = true) ∧
      (a.fieldwiseGe b m = true ↔ List.Forall₂ (· ≥ ·) (a.decompose m) (b.decompose m)) ∧
      a.fieldwiseGe b (m.union n) = (a.fieldwiseGe b m && a.fieldwiseGe b n) ∧
      a.fieldwiseGe a m = true ∧
      (a.fieldwiseGe b m = true → b.fieldwiseGe c m = true → a.fieldwiseGe c m = true) ∧
      (Value.datetimeCompare .ge m (.datetime a) (.datetime b) = .ok (.bool (a.fieldwiseGe b m)) ∧
        Value.datetimeCompare .lt m (.datetime a) (.datetime b) = .ok (.bool !(a.fieldwiseGe b m))) ∧
      ∀ before after, ∃ bytes literal, (Instruction.loadDatetime m a).encode = .ok bytes ∧
        Instruction.decode (before ++ bytes ++ after).toArray before.length =
          .ok (.loadDatetime m literal, bytes.length) ∧
        (∀ f, f ∉ m.fields → literal.get f = 0) ∧
        ∀ k : Mask, k.fields ⊆ m.fields →
          literal.decompose k = a.decompose k ∧ literal.fieldwiseGe a k = true := by
  refine ⟨fun _ => Mask.mem_fields_iff_testBit, fieldwiseGe_iff_decompose, fieldwiseGe_union a b m n,
    fieldwiseGe_refl a m, fieldwiseGe_trans, ⟨rfl, rfl⟩, ?_⟩
  intro before after
  obtain ⟨bytes, hencode, hdecode⟩ := decode_literal a m before after
  refine ⟨bytes, a.restrict m, hencode, hdecode, ?_, ?_⟩
  · intro f hf
    rw [get_restrict, if_neg (mt Mask.mem_fields.2 hf)]
  · intro k hk
    have hkept : ∀ f, k.selects f = true → (a.restrict m).get f = a.get f := fun f => get_restrict_of_subset hk
    exact ⟨decompose_congr hkept, fieldwiseGe_iff.2 fun f hf => Nat.le_of_eq (hkept f hf).symm⟩

/-- A literal of the hour and the year, by a mask with the unused bit, and what the year alone shows of it. -/
theorem mask_has_one_meaning_literal :
    (fieldwiseGe ⟨1, 2, 7, 4, 5, 2013, 6⟩ ⟨9, 9, 7, 9, 9, 2012, 9⟩ ⟨0xa4⟩ = true ∧
        fieldwiseGe ⟨9, 9, 7, 9, 9, 2012, 9⟩ ⟨0, 0, 3, 0, 0, 2012, 0⟩ ⟨0xa4⟩ = true ∧
          fieldwiseGe ⟨1, 2, 7, 4, 5, 2013, 6⟩ ⟨0, 0, 3, 0, 0, 2012, 0⟩ ⟨0xa4⟩ = true) ∧
      ∃ bytes literal, (Instruction.loadDatetime ⟨0xa4⟩ ⟨1, 2, 7, 4, 5, 2013, 6⟩).encode = .ok bytes ∧
        Instruction.decode ([0xff] ++ bytes ++ [0x3c]).toArray 1 = .ok (.loadDatetime ⟨0xa4⟩ literal, bytes.length) ∧
          literal.get .minute = 0 ∧ literal.decompose ⟨0x20⟩ = [2013] := by
  obtain ⟨-, -, -, -, htrans, -, hliteral⟩ :=
    mask_has_one_meaning ⟨1, 2, 7, 4, 5, 2013, 6⟩ ⟨9, 9, 7, 9, 9, 2012, 9⟩ ⟨0, 0, 3, 0, 0, 2012, 0⟩ ⟨0xa4⟩ ⟨0xa4⟩
  obtain ⟨bytes, literal, hencode, hdecode, hzero, hkept⟩ := hliteral [0xff] [0x3c]
  refine ⟨⟨rfl, rfl, htrans rfl rfl⟩, bytes, literal, hencode, hdecode, hzero .minute (by decide), ?_⟩
  rw [(hkept ⟨0x20⟩ (by decide)).1]
  rfl

end Datetime

end RuleMachine
