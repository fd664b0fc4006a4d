import RuleMachine.Instruction.Basic

/-!
# Texts of one line

What is written of an instruction has no line break in it, whatever its operands are: all of it is put together from names, marks and digits. A listing can therefore be cut into its lines again.
-/

namespace RuleMachine

/-- The text has no line break. -/
def IsLine (s : String) : Prop := '\n' ∉ s.toList

theorem isLine_append {s t : String} : IsLine (s ++ t) ↔ IsLine s ∧ IsLine t := by
  rw [IsLine, String.toList_append, List.mem_append, not_or]
  rfl

theorem isLine_ofList {chars : List Char} : IsLine (String.ofList chars) ↔ '\n' ∉ chars := by
  rw [IsLine, String.toList_ofList]

theorem isLine_intercalate {separator : String} {texts : List String} (hseparator : IsLine separator)
    (htexts : ∀ s ∈ texts, IsLine s) : IsLine (String.intercalate separator texts) := by
  induction texts with
  | nil => simp [IsLine]
  | cons s rest ih =>
    obtain ⟨hs, hrest⟩ := List.forall_mem_cons.1 htexts
    cases rest with
    | nil => rwa [String.intercalate_singleton]
    | cons t rest =>
      rw [String.intercalate_cons_cons, isLine_append, isLine_append]
      exact ⟨⟨hs, hseparator⟩, ih hrest⟩

theorem isLine_join {texts : List String} (h : ∀ s ∈ texts, IsLine s) : IsLine (String.join texts) := by
  rw [IsLine, String.toList_join, List.mem_flatMap]
  rintro ⟨s, hs, hbreak⟩
  exact h s hs hbreak

/-! ### Numbers -/

theorem exists_digitChar_of_mem_toDigits {base n : Nat} (hbase : 1 < base) {c : Char} (h : c ∈ Nat.toDigits base n) :
    ∃ digit, c = Nat.digitChar digit := by
  induction n using Nat.strongRecOn with
  | ind n ih =>
    rw [Nat.toDigits_eq_if hbase] at h
    split at h
    · exact ⟨n, List.mem_singleton.1 h⟩
    · next hle =>
      rcases List.mem_append.1 h with hc | hc
      · exact ih (n / base) (Nat.div_lt_self (by omega) hbase) hc
      · exact ⟨_, List.mem_singleton.1 hc⟩

theorem break_not_mem_toDigits {base : Nat} (hbase : 1 < base) (n : Nat) : '\n' ∉ Nat.toDigits base n := by
  intro h
  obtain ⟨digit, hdigit⟩ := exists_digitChar_of_mem_toDigits hbase h
  exact Nat.digitChar_ne '\n' rfl hdigit.symm

theorem isLine_toString (n : Nat) : IsLine (toString n) := by
  rw [Nat.toString_eq_ofList_toDigits, isLine_ofList]
  exact break_not_mem_toDigits (by decide) n

theorem break_not_mem_replicate (n : Nat) : '\n' ∉ List.replicate n '0' := by
  intro h
  cases List.eq_of_mem_replicate h

theorem isLine_padded {base : Nat} (hbase : 1 < base) (width n : Nat) : IsLine (Numeral.padded base width n) := by
  rw [Numeral.padded, isLine_ofList, List.mem_append, not_or]
  exact ⟨break_not_mem_replicate _, break_not_mem_toDigits hbase n⟩

theorem isLine_decimal (width n : Nat) : IsLine (Numeral.decimal width n) := isLine_padded (by decide) width n

theorem isLine_hex (width n : Nat) : IsLine (Numeral.hex width n) := isLine_padded (by decide) width n

theorem isLine_single (x : Single) : IsLine x.text := by
  have hsign : IsLine (if x.negative then "-" else "") := by split <;> simp [IsLine]
  unfold Single.text
  dsimp only
  split
  · simp [IsLine]
  · split
    · exact isLine_append.2 ⟨hsign, by simp [IsLine]⟩
    · split
      · rw [isLine_append, isLine_ofList, List.mem_append, not_or]
        exact ⟨hsign, break_not_mem_toDigits (by decide) _, break_not_mem_replicate _⟩
      · have hpadded : ∀ k n, '\n' ∉ List.replicate k '0' ++ Nat.toDigits 10 n := by
          intro k n
          rw [List.mem_append, not_or]
          exact ⟨break_not_mem_replicate _, break_not_mem_toDigits (by decide) _⟩
        simp only [isLine_append, isLine_ofList]
        exact ⟨⟨⟨hsign, fun h => hpadded _ _ (List.mem_of_mem_take h)⟩, by simp [IsLine]⟩,
          fun h => hpadded _ _ (List.mem_of_mem_drop h)⟩

theorem isLine_datetime (d : Datetime) : IsLine d.text := by
  simp only [Datetime.text, isLine_append]
  refine ⟨⟨⟨⟨⟨⟨⟨⟨⟨⟨⟨⟨isLine_decimal _ _, ?_⟩, isLine_decimal _ _⟩, ?_⟩, isLine_decimal _ _⟩, ?_⟩, isLine_decimal _ _⟩, ?_⟩,
    isLine_decimal _ _⟩, ?_⟩, isLine_decimal _ _⟩, ?_⟩, isLine_toString _⟩ <;> simp [IsLine]

/-! ### Instructions -/

theorem isLine_mnemonic (o : Opcode) : IsLine o.mnemonic := by
  cases o <;> simp [IsLine, Opcode.mnemonic]

theorem isLine_markedByte (b : UInt8) : IsLine (Numeral.markedByte b) :=
  isLine_append.2 ⟨by simp [IsLine], isLine_hex _ _⟩

theorem isLine_hexBytes (bytes : List UInt8) : IsLine (Numeral.hexBytes bytes) := by
  refine isLine_join ?_
  intro s hs
  obtain ⟨b, -, rfl⟩ := List.mem_map.1 hs
  exact isLine_hex _ _

theorem isLine_operandText {i : Instruction} {s : String} (h : i.operandText? = some s) : IsLine s := by
  cases i <;> cases h
  case loadU8 | loadU16 | loadU32 | loadRegister | storeRegister | dupAt | rotAt => exact isLine_toString _
  case loadFloat x => exact isLine_single x
  case loadDatetime mask value =>
    rw [isLine_append, isLine_append, isLine_append]
    exact ⟨⟨⟨by simp [IsLine], isLine_markedByte _⟩, by simp [IsLine]⟩, isLine_datetime _⟩
  case datetimeCompare | decompose => exact isLine_append.2 ⟨by simp [IsLine], isLine_markedByte _⟩
  case jump => exact isLine_append.2 ⟨by simp [IsLine], isLine_toString _⟩
  case switch table =>
    rw [isLine_append, isLine_append]
    refine ⟨⟨by simp [IsLine], isLine_intercalate (by simp [IsLine]) ?_⟩, by simp [IsLine]⟩
    intro s hs
    obtain ⟨case, -, rfl⟩ := List.mem_map.1 hs
    rw [isLine_append, isLine_append]
    exact ⟨⟨isLine_toString _, by simp [IsLine]⟩, isLine_toString _⟩
  case compareBlock first last literal =>
    simp only [isLine_append]
    exact ⟨⟨⟨⟨⟨by simp [IsLine], isLine_toString _⟩, by simp [IsLine]⟩, isLine_toString _⟩, by simp [IsLine]⟩,
      isLine_hexBytes _⟩

theorem isLine_text (i : Instruction) : IsLine i.text := by
  unfold Instruction.text
  split
  · next operands hoperands =>
    rw [isLine_append, isLine_append]
    exact ⟨⟨isLine_mnemonic _, by simp [IsLine]⟩, isLine_operandText hoperands⟩
  · exact isLine_mnemonic _

end RuleMachine
