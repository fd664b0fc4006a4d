import RuleMachine.Calendar.Text
import RuleMachine.Proofs.Calendar.DayCount
import RuleMachine.Proofs.Text.Digits

/-!
# Moments that are written and read again

The text of a moment is read as that moment, for every year that the clock can show and every nanosecond. Each part is read for itself: it takes what was written for it and leaves what was written behind it.
-/

namespace RuleMachine

theorem EndsDigits.take {s : List Char} (h : EndsDigits s) (n : Nat) : EndsDigits (s.take n) := by
  intro c hc
  cases n with
  | zero => rw [List.take_zero] at hc; cases hc
  | succ n =>
    cases s with
    | nil => cases hc
    | cons d s => exact h c hc

theorem isBlank_of_isDigit {c : Char} (h : c.isDigit) : isBlank c = false := by
  have hrange : 48 ≤ c.toNat ∧ c.toNat ≤ 57 := by
    simp only [Char.isDigit, Bool.and_eq_true, decide_eq_true_eq] at h
    exact h
  simp [isBlank]
  omega

theorem skipBlanks_cons {c : Char} (h : isBlank c = false) (s : List Char) : skipBlanks (c :: s) = c :: s :=
  List.dropWhile_cons_of_neg (by simp [h])

namespace Moment

open Numeral (decimal)

variable {n width : Nat} {rest : List Char}

/-! ### Digits -/

theorem takeWhile_take_decimal (limit : Nat)
    (h : (decimal width n).toList.length = limit ∨ (decimal width n).toList.length ≤ limit ∧ EndsDigits rest) :
    (((decimal width n).toList ++ rest).take limit).takeWhile Char.isDigit = (decimal width n).toList := by
  rw [List.take_append]
  rcases h with rfl | ⟨hle, hrest⟩
  · rw [List.take_length, Nat.sub_self, List.take_zero]
    exact takeWhile_isDigit_append (fun _ => Numeral.isDigit_of_mem_decimal) endsDigits_nil
  · rw [List.take_of_length_le hle]
    exact takeWhile_isDigit_append (fun _ => Numeral.isDigit_of_mem_decimal) (hrest.take _)

/-- A numeral is read, if it is as long as may be or something else follows it. -/
theorem readDigits_decimal (limit : Nat)
    (h : (decimal width n).toList.length = limit ∨ (decimal width n).toList.length ≤ limit ∧ EndsDigits rest) :
    readDigits limit ((decimal width n).toList ++ rest) = some (n, rest) := by
  simp only [readDigits, takeWhile_take_decimal limit h]
  rw [if_neg (by simpa using Numeral.decimal_ne_nil width n), Numeral.ofDigitChars_decimal, List.drop_left]

theorem readTwo_decimal (h : n < 100) (rest : List Char) : readTwo ((decimal 2 n).toList ++ rest) = some (n, rest) := by
  have hlength : (decimal 2 n).toList.length = 2 := Numeral.length_decimal (by decide) h
  obtain ⟨c, r, hcons, hdigit⟩ := Numeral.exists_decimal_eq_cons 2 n
  have hskip : skipBlanks ((decimal 2 n).toList ++ rest) = (decimal 2 n).toList ++ rest := by
    rw [hcons]
    exact skipBlanks_cons (isBlank_of_isDigit hdigit) _
  rw [readTwo, hskip]
  exact readDigits_decimal _ (.inl hlength)

/-! ### Parts of a moment -/

theorem readMark_cons (mark : Char) (h : isBlank mark = false) (rest : List Char) :
    readMark mark (mark :: rest) = some rest := by
  rw [readMark, skipBlanks_cons h]
  exact if_pos rfl

theorem readYear_minus {s : List Char} (h : readDigits s.length s = some (n, rest)) :
    readYear ('-' :: s) = some (-(n : Int), rest) := by
  rw [readYear, skipBlanks_cons rfl]
  simp only [h, Option.map_some]

theorem readYear_plus {s : List Char} (h : readDigits s.length s = some (n, rest)) :
    readYear ('+' :: s) = some ((n : Int), rest) := by
  rw [readYear, skipBlanks_cons rfl]
  simp only [h, Option.map_some]

theorem readYear_digit {c : Char} {s : List Char} (hc : c.isDigit) (h : readDigits 4 (c :: s) = some (n, rest)) :
    readYear (c :: s) = some ((n : Int), rest) := by
  rw [readYear, skipBlanks_cons (isBlank_of_isDigit hc)]
  split
  · next heq =>
    cases heq
    cases hc
  · next heq =>
    cases heq
    cases hc
  · rw [h, Option.map_some]

/-- A year without a sign has four digits, and any other ends where something else follows it. -/
theorem readYear_yearText {year : Int} (hrest : EndsDigits rest) :
    readYear ((yearText year).toList ++ rest) = some (year, rest) := by
  have hsigned : readDigits ((decimal 4 year.natAbs).toList ++ rest).length ((decimal 4 year.natAbs).toList ++ rest) =
      some (year.natAbs, rest) :=
    readDigits_decimal _ (.inr ⟨by rw [List.length_append]; omega, hrest⟩)
  rw [yearText]
  split
  · next hneg =>
    have hyear : -(year.natAbs : Int) = year := by omega
    have hminus : "-".toList = ['-'] := rfl
    rw [String.toList_append, hminus, List.append_assoc, List.singleton_append]
    exact (readYear_minus hsigned).trans (by rw [hyear])
  · next hpos =>
    have hyear : (year.natAbs : Int) = year := by omega
    split
    · have hplus : "+".toList = ['+'] := rfl
      rw [String.toList_append, hplus, List.append_assoc, List.singleton_append]
      exact (readYear_plus hsigned).trans (by rw [hyear])
    · have hlength : (decimal 4 year.natAbs).toList.length = 4 := Numeral.length_decimal (by decide) (by omega)
      obtain ⟨c, r, hcons, hdigit⟩ := Numeral.exists_decimal_eq_cons 4 year.natAbs
      have hread : readDigits 4 ((decimal 4 year.natAbs).toList ++ rest) = some (year.natAbs, rest) :=
        readDigits_decimal 4 (.inl hlength)
      rw [hcons, List.cons_append] at hread ⊢
      exact (readYear_digit hdigit hread).trans (by rw [hyear])

theorem readFraction_decimal (hlength : (decimal width n).toList.length = width) (hwidth : width ≤ 9) :
    readFraction ('.' :: (decimal width n).toList) = some (n * Nat.pow 10 (9 - width), []) := by
  have hwhole : (decimal width n).toList.length = 9 ∨ (decimal width n).toList.length ≤ 9 ∧ EndsDigits [] :=
    .inr ⟨by omega, endsDigits_nil⟩
  have htaken := takeWhile_take_decimal 9 hwhole
  have hread := readDigits_decimal 9 hwhole
  rw [List.append_nil] at htaken hread
  simp only [readFraction, htaken, hread, hlength]
  rfl

/-- A fraction in larger units is read in nanoseconds. -/
theorem readFraction_units (width unit : Nat) (hunit : Nat.pow 10 (9 - width) = unit) (hwhole : n % unit = 0)
    (hlength : (decimal width (n / unit)).toList.length = width) (hwidth : width ≤ 9) :
    readFraction ('.' :: (decimal width (n / unit)).toList) = some (n, []) := by
  rw [readFraction_decimal hlength hwidth, hunit, Nat.div_mul_cancel (Nat.dvd_of_mod_eq_zero hwhole)]

theorem readFraction_fractionText (h : n < 1000000000) : readFraction (fractionText n).toList = some (n, []) := by
  have hpoint : ".".toList = ['.'] := rfl
  unfold fractionText
  split
  · next hzero =>
    rw [hzero]
    rfl
  · split
    · next hmilli =>
      rw [String.toList_append, hpoint, List.singleton_append]
      exact readFraction_units 3 1000000 rfl hmilli (Numeral.length_decimal (by decide) (by omega)) (by decide)
    · split
      · next hmicro =>
        rw [String.toList_append, hpoint, List.singleton_append]
        exact readFraction_units 6 1000 rfl hmicro (Numeral.length_decimal (by decide) (by omega)) (by decide)
      · have hone : Nat.pow 10 (9 - 9) = 1 := rfl
        have hlength : (decimal 9 n).toList.length = 9 := Numeral.length_decimal (by decide) h
        rw [String.toList_append, hpoint, List.singleton_append, readFraction_decimal hlength (by decide), hone, Nat.mul_one]

theorem of?_parts (m : Moment) :
    of? m.date.year m.date.month m.date.day m.hour m.minute m.second m.nanosecond = some m := by
  rw [of?, Date.of?, dif_pos m.date.exists_day]
  exact dif_pos ⟨m.time_valid, m.year_range⟩

theorem parse?_text (m : Moment) : parse? m.text.toList = some m := by
  obtain ⟨hhour, hminute, hsecond, hnanosecond⟩ := m.time_valid
  have hmonth := m.date.month_range.2
  have hday := m.date.day_le
  have hdash : "-".toList = ['-'] := rfl
  have ht : "T".toList = ['T'] := rfl
  have hcolon : ":".toList = [':'] := rfl
  simp only [text, String.toList_append, List.append_assoc, hdash, ht, hcolon, List.cons_append, List.nil_append]
  refine Option.bind_eq_some_iff.2 ⟨_, readYear_yearText (endsDigits_cons rfl _), ?_⟩
  refine Option.bind_eq_some_iff.2 ⟨_, readMark_cons '-' rfl _, ?_⟩
  refine Option.bind_eq_some_iff.2 ⟨_, readTwo_decimal (by omega) _, ?_⟩
  refine Option.bind_eq_some_iff.2 ⟨_, readMark_cons '-' rfl _, ?_⟩
  refine Option.bind_eq_some_iff.2 ⟨_, readTwo_decimal (by omega) _, ?_⟩
  refine Option.bind_eq_some_iff.2 ⟨_, readMark_cons 'T' rfl _, ?_⟩
  refine Option.bind_eq_some_iff.2 ⟨_, readTwo_decimal (by omega) _, ?_⟩
  refine Option.bind_eq_some_iff.2 ⟨_, readMark_cons ':' rfl _, ?_⟩
  refine Option.bind_eq_some_iff.2 ⟨_, readTwo_decimal (by omega) _, ?_⟩
  refine Option.bind_eq_some_iff.2 ⟨_, readMark_cons ':' rfl _, ?_⟩
  refine Option.bind_eq_some_iff.2 ⟨_, readTwo_decimal (by omega) _, ?_⟩
  refine Option.bind_eq_some_iff.2 ⟨_, readFraction_fractionText hnanosecond, ?_⟩
  exact m.of?_parts

end Moment

end RuleMachine
