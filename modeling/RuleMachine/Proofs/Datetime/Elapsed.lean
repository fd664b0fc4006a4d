import Mathlib.Algebra.Group.Nat.Defs
import RuleMachine.Datetime.Algebra
import RuleMachine.Proofs.Calendar.DayCount
import RuleMachine.Proofs.Run.Depth

/-!
# The difference of datetimes is the time between them

For a year that its field can hold, a packed datetime has the date and the time of day of its moment. The Julian day is then the number of the date up to a constant: beginning the year with March puts the leap day last, where counting by years has it, and makes the days before a month a linear fit. So the difference of two datetimes is the number of seconds between their moments, up to what 32 bits hold.
-/

namespace RuleMachine.Datetime

open Calendar

variable {m a b : Moment}

/-- The year is one that a packed datetime can hold. -/
def Fits (m : Moment) : Prop := 0 ≤ m.date.year ∧ m.date.year ≤ 0xffff

instance : Decidable (Fits m) := inferInstanceAs (Decidable (_ ∧ _))

theorem year_ofMoment (h : Fits m) : ((ofMoment m).year.toNat : Int) = m.date.year := by
  obtain ⟨hlow, hhigh⟩ := h
  simp only [ofMoment, UInt16.toNat_ofNat']
  omega

theorem month_ofMoment (m : Moment) : (ofMoment m).month.toNat = m.date.month := by
  have hmonth := m.date.month_range.2
  simp only [ofMoment, UInt8.toNat_ofNat']
  omega

theorem day_ofMoment (m : Moment) : (ofMoment m).day.toNat = m.date.day := by
  have hday := m.date.day_le
  simp only [ofMoment, UInt8.toNat_ofNat']
  omega

theorem daySeconds_ofMoment (m : Moment) :
    (ofMoment m).daySeconds = (3600 * m.hour + 60 * m.minute + m.second : Nat) := by
  obtain ⟨hhour, hminute, hsecond, -⟩ := m.time_valid
  simp only [daySeconds, ofMoment, UInt8.toNat_ofNat']
  omega

/-- The days that the formula counts for a year, which it numbers from the year 4800 before and which it ends in February. -/
theorem julianYears_eq (year early : Int) :
    365 * (year + 4800 - early) + (year + 4800 - early) / 4 - (year + 4800 - early) / 100 +
      (year + 4800 - early) / 400 = daysBeforeYear (year - early + 1) + 1753164 := by
  unfold daysBeforeYear
  dsimp only
  omega

theorem julianDay_ofMoment (h : Fits m) : (ofMoment m).julianDay = m.date.dayNumber + 1721425 := by
  obtain ⟨hone, htwelve⟩ := m.date.month_range
  simp only [julianDay, month_ofMoment, day_ofMoment, year_ofMoment h, Date.dayNumber]
  by_cases hearly : (m.date.month : Int) ≤ 2
  · -- January and February count as the end of the year before.
    have hyears := julianYears_eq m.date.year 1
    rw [Int.sub_add_cancel] at hyears
    have hmonths : (153 * (m.date.month + 12 - 3) + 2) / 5 = daysBeforeMonth m.date.year m.date.month + 306 := by
      have hmonth : m.date.month = 1 ∨ m.date.month = 2 := by omega
      rcases hmonth with hmonth | hmonth <;> rw [hmonth] <;> rfl
    simp only [if_pos hearly]
    omega
  · have hyears := julianYears_eq m.date.year 0
    simp only [Int.sub_zero] at hyears
    have hmonths := daysBeforeMonth_of_march m.date.year (by omega : 3 ≤ m.date.month) (by omega)
    have hlength := yearLength_eq m.date.year
    have hnext := daysBeforeYear_succ m.date.year
    simp only [if_neg hearly]
    omega

theorem elapsed_ofMoment (ha : Fits a) (hb : Fits b) : (ofMoment a).elapsed (ofMoment b) = a.seconds - b.seconds := by
  rw [elapsed, julianDay_ofMoment ha, julianDay_ofMoment hb, daySeconds_ofMoment, daySeconds_ofMoment, Moment.seconds,
    Moment.seconds]
  omega

/-! ### In 32 bits -/

theorem toNat_diff (d e : Datetime) : ((d.diff e).toNat : Int) = d.elapsed e % 2 ^ 32 := by
  have hword : d.diff e = UInt32.ofNat (d.elapsed e % 2 ^ 32).toNat := rfl
  rw [hword, UInt32.toNat_ofNat']
  omega

/-- Read with a sign, the difference is exact where 32 bits hold it. -/
theorem toInt_diff {d e : Datetime} (hlow : -2 ^ 31 ≤ d.elapsed e) (hhigh : d.elapsed e < 2 ^ 31) :
    (d.diff e).toInt32.toInt = d.elapsed e := by
  have hword : (d.diff e).toInt32.toInt = ((d.diff e).toNat : Int).bmod 4294967296 := BitVec.toInt_eq_toNat_bmod _
  rw [hword, toNat_diff]
  exact (Int.emod_bmod _ _).trans (Int.bmod_eq_of_le_mul_two (by push_cast; omega) (by push_cast; omega))

/-! ### The time between two moments -/

/-- The difference counts the seconds between the moments, to 32 bits and exactly where these hold it with a sign. Its days are the days one counts from the one date to the other, and it is what the instruction leaves in place of the two datetimes. -/
theorem diff_ofMoment (a b : Moment) (ha : Fits a) (hb : Fits b) :
    (((ofMoment a).diff (ofMoment b)).toNat : Int) = (a.seconds - b.seconds) % 2 ^ 32 ∧
      (-2 ^ 31 ≤ a.seconds - b.seconds → a.seconds - b.seconds < 2 ^ 31 →
        ((ofMoment a).diff (ofMoment b)).toInt32.toInt = a.seconds - b.seconds) ∧
      (ofMoment a).julianDay = a.date.dayNumber + 1721425 ∧
      (∀ n : Nat, Date.tomorrow^[n] b.date = a.date ↔ (ofMoment a).julianDay = (ofMoment b).julianDay + n) ∧
      ∀ (around : Surroundings) (c : Context) (rest : List Value), c.stack.depth ≤ c.stack.limit →
        c.stack.values = .datetime (ofMoment b) :: .datetime (ofMoment a) :: rest →
          c.perform around .datetimeDiff =
            .ok ({ c with stack := { c.stack with values := .u32 ((ofMoment a).diff (ofMoment b)) :: rest } },
              .advance) := by
  have helapsed := elapsed_ofMoment ha hb
  refine ⟨?_, ?_, julianDay_ofMoment ha, ?_, ?_⟩
  · rw [toNat_diff, helapsed]
  · intro hlow hhigh
    rw [← helapsed] at hlow hhigh ⊢
    exact toInt_diff hlow hhigh
  · intro n
    rw [Date.iterate_tomorrow_eq_iff, julianDay_ofMoment ha, julianDay_ofMoment hb]
    omega
  · intro around c rest hdepth hvalues
    exact Context.mapPair_of_values hvalues hdepth rfl

/-- From 1 March back to 28 February of a leap year are two days. -/
theorem diff_ofMoment_leapDay :
    ((ofMoment ⟨⟨2012, 2, 28, by decide⟩, 0, 0, 0, 0, by decide, by decide⟩).diff
      (ofMoment ⟨⟨2012, 3, 1, by decide⟩, 0, 0, 0, 0, by decide, by decide⟩)).toInt32.toInt = -172800 :=
  (diff_ofMoment _ _ (by decide) (by decide)).2.1 (by decide +kernel) (by decide +kernel)

end RuleMachine.Datetime
