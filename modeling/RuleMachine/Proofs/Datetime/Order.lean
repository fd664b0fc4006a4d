import RuleMachine.Proofs.Datetime.Elapsed
import RuleMachine.Proofs.Datetime.Fieldwise

/-!
# The order of the fields and the order of time

A datetime that is no less than another in every field of the calendar and the clock is not the earlier one. The fields may hold anything: the Julian day grows with the day, the month and the year by at least as much as these do, also where February ends the year by which the formula counts and where there is no such month. So the time between two datetimes is at least what any one of their fields is ahead.
-/

namespace RuleMachine

theorem Calendar.daysBeforeYear_add_le {year later : Int} (h : year ≤ later) :
    daysBeforeYear year + 365 * (later - year) ≤ daysBeforeYear later := by
  unfold daysBeforeYear
  dsimp only
  omega

namespace Datetime

open Calendar

variable {d e : Datetime}

/-- All fields but the weekday, which the others determine. -/
def Mask.calendar : Mask := ⟨0x3f⟩

/-- The Julian day by the calendar's count of years: January and February, and a month before them, are in the year that ends with them. -/
theorem julianDay_of_early (h : d.get .month ≤ 2) :
    d.julianDay = d.get .day + (153 * (d.get .month + 9) + 2) / 5 + daysBeforeYear (d.get .year) + 1721119 := by
  have hyears := julianYears_eq (d.get .year) 1
  have hearly : (d.month.toNat : Int) ≤ 2 := by exact_mod_cast h
  rw [Int.sub_add_cancel] at hyears
  simp only [julianDay, if_pos hearly]
  simp only [get] at hyears ⊢
  omega

theorem julianDay_of_late (h : 2 < d.get .month) :
    d.julianDay = d.get .day + (153 * (d.get .month - 3) + 2) / 5 + daysBeforeYear (d.get .year + 1) + 1721119 := by
  have hyears := julianYears_eq (d.get .year) 0
  have hlate : ¬(d.month.toNat : Int) ≤ 2 := by exact_mod_cast Nat.not_le.2 h
  rw [Int.sub_zero, Int.sub_zero] at hyears
  simp only [julianDay, if_neg hlate]
  simp only [get] at hyears ⊢
  omega

/-- The Julian day is ahead by as much as the day, the month and the year together. -/
theorem julianDay_add_le (hyear : e.get .year ≤ d.get .year) (hmonth : e.get .month ≤ d.get .month) :
    e.julianDay + ((d.get .year - e.get .year : Int) + (d.get .month - e.get .month) + (d.get .day - e.get .day)) ≤
      d.julianDay := by
  by_cases hearly : e.get .month ≤ 2
  · by_cases hearly' : d.get .month ≤ 2
    · have hyears := @daysBeforeYear_add_le (e.get .year) (d.get .year) (by omega)
      rw [julianDay_of_early hearly, julianDay_of_early hearly']
      omega
    · -- The months that end the one year are fewer days than the year in between.
      have hyears := @daysBeforeYear_add_le (e.get .year) (d.get .year + 1) (by omega)
      rw [julianDay_of_early hearly, julianDay_of_late (Nat.not_le.1 hearly')]
      omega
  · have hlate : 2 < e.get .month := Nat.not_le.1 hearly
    have hyears := @daysBeforeYear_add_le (e.get .year + 1) (d.get .year + 1) (by omega)
    rw [julianDay_of_late hlate, julianDay_of_late (Nat.lt_of_lt_of_le hlate hmonth)]
    omega

/-- The time between two datetimes is no shorter than what a field is ahead, if none is behind. -/
theorem sub_get_le_elapsed (h : ∀ f, Mask.calendar.selects f = true → e.get f ≤ d.get f) {f : Field}
    (hf : Mask.calendar.selects f = true) : (d.get f - e.get f : Int) ≤ d.elapsed e := by
  have hyear := h .year rfl
  have hmonth := h .month rfl
  have hday := h .day rfl
  have hhour := h .hour rfl
  have hminute := h .minute rfl
  have hsecond := h .second rfl
  have hdays := julianDay_add_le hyear hmonth
  have hseconds : d.daySeconds - e.daySeconds =
      (d.get .second - e.get .second : Int) + 60 * (d.get .minute - e.get .minute) +
        3600 * (d.get .hour - e.get .hour) := by
    simp only [daySeconds, get]
    omega
  rw [elapsed, hseconds]
  cases f
  case weekday => cases hf
  all_goals omega

/-- Where all fields of the calendar and the clock are compared, the datetime that is no less is not the earlier one, and it is the later one if one of these fields is greater. So where the one instruction finds that the first datetime is no less, the other leaves the difference of two that are not the wrong way round. -/
theorem fieldwise_order_chronological (a b : Datetime) (m : Mask) (hm : m.contains .calendar = true)
    (h : a.fieldwiseGe b m = true) :
    a.elapsed b = 86400 * (a.julianDay - b.julianDay) + (a.daySeconds - b.daySeconds) ∧
      0 ≤ a.elapsed b ∧
      ((∃ f, Mask.calendar.selects f = true ∧ b.get f < a.get f) → 0 < a.elapsed b) ∧
      ∀ (around : Surroundings) (c : Context) (rest : List Value), c.stack.depth ≤ c.stack.limit →
        c.stack.values = .datetime b :: .datetime a :: rest →
          c.perform around (.datetimeCompare .ge m) =
              .ok ({ c with stack := { c.stack with values := .bool true :: rest } }, .advance) ∧
            ∃ n : UInt32, c.perform around .datetimeDiff =
                .ok ({ c with stack := { c.stack with values := .u32 n :: rest } }, .advance) ∧
              (n.toNat : Int) = a.elapsed b % 2 ^ 32 ∧ (a.elapsed b < 2 ^ 31 → 0 ≤ n.toInt32.toInt) := by
  have hfields : ∀ f, Mask.calendar.selects f = true → b.get f ≤ a.get f := fun f hf =>
    fieldwiseGe_iff.1 h f (Mask.selects_of_contains hm hf)
  have hnonneg : 0 ≤ a.elapsed b := by
    have hahead := @sub_get_le_elapsed a b hfields .second rfl
    have hle := hfields .second rfl
    omega
  refine ⟨rfl, hnonneg, ?_, ?_⟩
  · rintro ⟨f, hf, hlt⟩
    have hahead := sub_get_le_elapsed hfields hf
    omega
  · intro around c rest hdepth hvalues
    refine ⟨Context.mapPair_of_values hvalues hdepth ?_, a.diff b, Context.mapPair_of_values hvalues hdepth rfl,
      toNat_diff a b, ?_⟩
    · rw [← h]
      rfl
    · intro hhigh
      rw [toInt_diff (by omega) hhigh]
      exact hnonneg

/-- The day 201 of a month 130 is after the day 200 of a month 0, with a weekday that is less, and both in hours that no day has. -/
theorem fieldwise_order_chronological_outOfRange :
    Mask.contains ⟨0xbf⟩ .calendar = true ∧
      fieldwiseGe ⟨0, 0, 200, 201, 130, 2013, 0⟩ ⟨0, 0, 99, 200, 0, 2013, 9⟩ ⟨0xbf⟩ = true ∧
        0 < elapsed ⟨0, 0, 200, 201, 130, 2013, 0⟩ ⟨0, 0, 99, 200, 0, 2013, 9⟩ :=
  have hchronological :=
    fieldwise_order_chronological ⟨0, 0, 200, 201, 130, 2013, 0⟩ ⟨0, 0, 99, 200, 0, 2013, 9⟩ ⟨0xbf⟩ rfl rfl
  ⟨rfl, rfl, hchronological.2.2.1 ⟨.month, rfl, by decide⟩⟩

end Datetime

end RuleMachine
