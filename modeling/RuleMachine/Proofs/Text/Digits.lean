import Mathlib.Algebra.Group.Nat.Defs
import RuleMachine.Text.Numeral

/-!
# Runs of digits

What a reader of digits finds in a text that was written from a number: the digits of the number up to where something else begins, and the number again when they are counted up. Zeros on the left change neither.
-/

namespace RuleMachine

/-- The text does not go on with a digit. -/
def EndsDigits (s : List Char) : Prop := ∀ c, s.head? = some c → c.isDigit = false

theorem endsDigits_nil : EndsDigits [] := by simp [EndsDigits]

theorem endsDigits_cons {c : Char} (h : c.isDigit = false) (s : List Char) : EndsDigits (c :: s) := by
  intro d hd
  cases hd
  exact h

variable {digits rest : List Char}

theorem takeWhile_isDigit_append (hdigits : ∀ c ∈ digits, c.isDigit) (hrest : EndsDigits rest) :
    (digits ++ rest).takeWhile Char.isDigit = digits := by
  rw [List.takeWhile_append_of_pos hdigits]
  cases rest with
  | nil => simp
  | cons c rest => rw [List.takeWhile_cons_of_neg (by simp [hrest c rfl]), List.append_nil]

/-! ### Digits of a number -/

theorem isDigit_of_mem_toDigits {n : Nat} {c : Char} (h : c ∈ Nat.toDigits 10 n) : c.isDigit :=
  Nat.isDigit_of_mem_toDigits (by decide) (by decide) h

theorem exists_toDigits_eq_cons (n : Nat) : ∃ c r, Nat.toDigits 10 n = c :: r ∧ c.isDigit := by
  obtain ⟨c, r, hcons⟩ := List.exists_cons_of_ne_nil (Nat.toDigits_ne_nil (n := n) (b := 10))
  exact ⟨c, r, hcons, isDigit_of_mem_toDigits (hcons ▸ List.mem_cons_self)⟩

/-- Only zero is written with a leading zero. -/
theorem head?_toDigits_ne {n : Nat} (h : 0 < n) : (Nat.toDigits 10 n).head? ≠ some '0' := by
  induction n using Nat.strongRecOn with
  | ind n ih =>
    rw [Nat.toDigits_eq_if (by decide)]
    split
    · next hlt =>
      have hdigit : ∀ d < 10, 0 < d → Nat.digitChar d ≠ '0' := by decide
      intro hhead
      exact hdigit n hlt h (Option.some.inj hhead)
    · next hle =>
      obtain ⟨c, r, hcons, -⟩ := exists_toDigits_eq_cons (n / 10)
      have hhead := ih (n / 10) (by omega) (by omega)
      rw [hcons] at hhead ⊢
      exact hhead

namespace Numeral

theorem toList_decimal (width n : Nat) : (decimal width n).toList =
    List.replicate (width - (Nat.toDigits 10 n).length) '0' ++ Nat.toDigits 10 n := String.toList_ofList

theorem isDigit_of_mem_decimal {width n : Nat} {c : Char} (h : c ∈ (decimal width n).toList) : c.isDigit := by
  rw [toList_decimal] at h
  rcases List.mem_append.1 h with hzero | hdigit
  · rw [List.eq_of_mem_replicate hzero]
    decide
  · exact isDigit_of_mem_toDigits hdigit

theorem decimal_ne_nil (width n : Nat) : (decimal width n).toList ≠ [] := by
  rw [toList_decimal]
  exact List.append_ne_nil_of_right_ne_nil _ Nat.toDigits_ne_nil

theorem ofDigitChars_decimal (width n : Nat) : Nat.ofDigitChars 10 (decimal width n).toList 0 = n := by
  rw [toList_decimal, Nat.ofDigitChars_append, Nat.ofDigitChars_replicate_zero, Nat.mul_zero,
    Nat.ofDigitChars_ten_toDigits]

theorem length_decimal {width n : Nat} (hwidth : 0 < width) (h : n < 10 ^ width) :
    (decimal width n).toList.length = width := by
  have hlength := (Nat.length_toDigits_le_iff (b := 10) (by decide) hwidth).2 h
  rw [toList_decimal, List.length_append, List.length_replicate]
  omega

/-- A numeral starts with a digit. -/
theorem exists_decimal_eq_cons (width n : Nat) : ∃ c r, (decimal width n).toList = c :: r ∧ c.isDigit := by
  obtain ⟨c, r, hcons⟩ := List.exists_cons_of_ne_nil (decimal_ne_nil width n)
  exact ⟨c, r, hcons, isDigit_of_mem_decimal (hcons ▸ List.mem_cons_self)⟩

end Numeral

end RuleMachine
