import Mathlib.Algebra.Group.Nat.Defs
import RuleMachine.Instruction.SwitchTable
import RuleMachine.Proofs.Reader

/-!
# The cases of a table

A table that is made from cases spells them one after another, so reading it gives them back in order, each value cut to the width. A key is looked up among the cut values and the first case that has it decides; two cases may have become the same, and a key that the width cannot hold is found nowhere.
-/

namespace RuleMachine

namespace CaseWidth

def bits : CaseWidth → Nat
  | w8 => 8
  | w16 => 16
  | w32 => 32

/-- The value as far as the width can hold it. -/
def cut (width : CaseWidth) (value : UInt32) : UInt32 := UInt32.ofNat (value.toNat % 2 ^ width.bits)

theorem pow_bytes (width : CaseWidth) : 256 ^ width.bytes = 2 ^ width.bits := by cases width <;> rfl

theorem pow_bits_le (width : CaseWidth) : 2 ^ width.bits ≤ 2 ^ 32 := by cases width <;> decide

theorem toNat_cut (width : CaseWidth) (value : UInt32) : (width.cut value).toNat = value.toNat % 2 ^ width.bits := by
  have hlt : value.toNat % 2 ^ width.bits < 2 ^ 32 :=
    Nat.lt_of_lt_of_le (Nat.mod_lt _ (Nat.two_pow_pos _)) width.pow_bits_le
  exact UInt32.toNat_ofNat_of_lt' hlt

end CaseWidth

namespace SwitchTable

variable {width : CaseWidth} {cases : List (UInt32 × UInt16)} {key : UInt32} {skip : UInt16}

/-! ### Reading back what was written -/

theorem length_encodeCase (width : CaseWidth) (case : UInt32 × UInt16) :
    (encodeCase width case).length = width.entrySize := by
  rw [encodeCase, List.length_append, BigEndian.length_encode, BigEndian.length_encode, CaseWidth.entrySize]

theorem readCase_encodeCase (width : CaseWidth) (case : UInt32 × UInt16) (rest : List UInt8) :
    readCase width (encodeCase width case ++ rest) = (width.cut case.1, case.2) := by
  have hvalue : (encodeCase width case ++ rest).take width.bytes = BigEndian.encode width.bytes case.1.toNat := by
    rw [encodeCase, List.append_assoc]
    exact List.take_left' (BigEndian.length_encode _ _)
  have hskip : ((encodeCase width case ++ rest).drop width.bytes).take 2 = BigEndian.encode 2 case.2.toNat := by
    rw [encodeCase, List.append_assoc, List.drop_left' (BigEndian.length_encode _ _)]
    exact List.take_left' (BigEndian.length_encode _ _)
  have hlt : case.2.toNat < 256 ^ 2 := case.2.toNat_lt
  rw [readCase, hvalue, hskip, BigEndian.decode_encode, BigEndian.decode_encode, width.pow_bytes,
    Nat.mod_eq_of_lt hlt, UInt16.ofNat_toNat]
  rfl

theorem length_entries_ofCases (width : CaseWidth) (cases : List (UInt32 × UInt16)) :
    (ofCases width cases).entries.length = cases.length * width.entrySize := by
  rw [ofCases]
  induction cases with
  | nil => exact (Nat.zero_mul _).symm
  | cons case cases ih =>
    rw [List.flatMap_cons, List.length_append, length_encodeCase, ih, List.length_cons, Nat.succ_mul, Nat.add_comm]

theorem isWhole_ofCases (width : CaseWidth) (cases : List (UInt32 × UInt16)) : (ofCases width cases).IsWhole := by
  rw [IsWhole, length_entries_ofCases]
  exact Nat.mul_mod_left _ _

theorem size_ofCases (width : CaseWidth) (cases : List (UInt32 × UInt16)) :
    (ofCases width cases).size = cases.length := by
  rw [size, length_entries_ofCases]
  exact Nat.mul_div_cancel _ width.entrySize_pos

theorem readCases_flatMap (width : CaseWidth) (cases : List (UInt32 × UInt16)) :
    readCases width cases.length (cases.flatMap (encodeCase width)) = cases.map fun case => (width.cut case.1, case.2) := by
  induction cases with
  | nil => rfl
  | cons case cases ih =>
    rw [List.flatMap_cons, List.length_cons, readCases, readCase_encodeCase,
      List.drop_left' (length_encodeCase width case), ih, List.map_cons]

/-- The cases of the table are those that it was made from, in order, their values cut to the width. -/
theorem cases_ofCases (width : CaseWidth) (cases : List (UInt32 × UInt16)) :
    (ofCases width cases).cases = cases.map fun case => (width.cut case.1, case.2) := by
  rw [SwitchTable.cases, size_ofCases]
  exact readCases_flatMap width cases

/-! ### Looking a key up -/

/-- The skip stands at the first case whose value, as far as the width can hold it, is the key. -/
def Decides (width : CaseWidth) (cases : List (UInt32 × UInt16)) (key : UInt32) (skip : UInt16) : Prop :=
  ∃ before value after, cases = before ++ (value, skip) :: after ∧ value.toNat % 2 ^ width.bits = key.toNat ∧
    ∀ case ∈ before, case.1.toNat % 2 ^ width.bits ≠ key.toNat

theorem cut_eq_iff {value : UInt32} : width.cut value = key ↔ value.toNat % 2 ^ width.bits = key.toNat := by
  rw [← width.toNat_cut]
  exact UInt32.toNat_inj.symm

theorem lookup?_ofCases (width : CaseWidth) (cases : List (UInt32 × UInt16)) (key : UInt32) :
    (ofCases width cases).lookup? key
      = (cases.find? fun case => decide (case.1.toNat % 2 ^ width.bits = key.toNat)).map (·.2) := by
  rw [lookup?, cases_ofCases, List.find?_map, Option.map_map]
  simp only [Function.comp_def, cut_eq_iff]

theorem lookup?_ofCases_eq_some_iff : (ofCases width cases).lookup? key = some skip ↔ Decides width cases key skip := by
  rw [lookup?_ofCases, Option.map_eq_some_iff]
  constructor
  · rintro ⟨⟨value, _⟩, hfind, rfl⟩
    obtain ⟨hkey, before, after, hcases, hbefore⟩ := List.find?_eq_some_iff_append.1 hfind
    exact ⟨before, value, after, hcases, by simpa using hkey, by simpa using hbefore⟩
  · rintro ⟨before, value, after, hcases, hkey, hbefore⟩
    refine ⟨(value, skip), List.find?_eq_some_iff_append.2 ⟨by simpa using hkey, before, after, hcases, ?_⟩, rfl⟩
    simpa using hbefore

theorem lookup?_ofCases_eq_none_iff :
    (ofCases width cases).lookup? key = none ↔ ∀ case ∈ cases, case.1.toNat % 2 ^ width.bits ≠ key.toNat := by
  rw [lookup?_ofCases, Option.map_eq_none_iff, List.find?_eq_none]
  simp

/-- A key that the width cannot hold is the value of no case. -/
theorem ne_of_pow_bits_le (h : 2 ^ width.bits ≤ key.toNat) (value : UInt32) :
    value.toNat % 2 ^ width.bits ≠ key.toNat :=
  Nat.ne_of_lt (Nat.lt_of_lt_of_le (Nat.mod_lt _ (Nat.two_pow_pos _)) h)

end SwitchTable

end RuleMachine
