import Mathlib.Tactic.Ring
import RuleMachine.Proofs.Datetime.Elapsed

/-!
# Differences in 64 and in 32 bits

Whatever the fields of a datetime hold, it stands somewhere on a line of seconds, and counting there needs no more than 64 bits: arithmetic that stops where a value does not fit never stops. In the 32 bits of a difference the place on the line is a word, and a difference is one word less another, so differences add up, and moving a field moves the difference.
-/

namespace RuleMachine

/-! ### Arithmetic that stops at overflow -/

namespace Checked

/-- The number, if 64 bits hold it with a sign. -/
def hold? (n : Int) : Option Int := if -2 ^ 63 ≤ n ∧ n < 2 ^ 63 then some n else none

def add? (m n : Int) : Option Int := hold? (m + n)

def sub? (m n : Int) : Option Int := hold? (m - n)

def mul? (m n : Int) : Option Int := hold? (m * n)

/-- The quotient without its fraction. -/
def div? (m n : Int) : Option Int := hold? (m.tdiv n)

theorem some_bind {α β : Type} (a : α) (next : α → Option β) : (some a >>= next) = next a := rfl

variable {m n : Int} {α : Type} (next : Int → Option α)

theorem hold?_bind (h : -2 ^ 63 ≤ n ∧ n < 2 ^ 63) : (hold? n >>= next) = next n := by
  rw [hold?, if_pos h, some_bind]

theorem add?_bind (h : -2 ^ 63 ≤ m + n ∧ m + n < 2 ^ 63) : (add? m n >>= next) = next (m + n) := hold?_bind next h

theorem sub?_bind (h : -2 ^ 63 ≤ m - n ∧ m - n < 2 ^ 63) : (sub? m n >>= next) = next (m - n) := hold?_bind next h

theorem mul?_bind (h : -2 ^ 63 ≤ m * n ∧ m * n < 2 ^ 63) : (mul? m n >>= next) = next (m * n) := hold?_bind next h

theorem div?_bind (hm : 0 ≤ m) (h : -2 ^ 63 ≤ m / n ∧ m / n < 2 ^ 63) : (div? m n >>= next) = next (m / n) := by
  rw [div?, Int.tdiv_eq_ediv_of_nonneg hm, hold?_bind next h]

end Checked

namespace Datetime

open Checked

variable {d : Datetime}

/-- The Julian day and the seconds of the day, one step of arithmetic after the other. -/
def span? (d : Datetime) : Option (Int × Int) := do
  let month : Int := d.month.toNat
  let early : Int := if month ≤ 2 then 1 else 0
  let y ← sub? (← add? d.year.toNat 4800) early
  let m ← sub? (← add? month (← mul? 12 early)) 3
  let days ← add? d.day.toNat (← div? (← add? (← mul? 153 m) 2) 5)
  let days ← add? days (← mul? 365 y)
  let days ← add? days (← div? y 4)
  let days ← sub? days (← div? y 100)
  let days ← add? days (← div? y 400)
  let days ← sub? days 32045
  let seconds ← add? (← add? d.second.toNat (← mul? 60 d.minute.toNat)) (← mul? 3600 d.hour.toNat)
  return (days, seconds)

def diff? (a b : Datetime) : Option UInt32 := do
  let (days, seconds) ← a.span?
  let (days', seconds') ← b.span?
  let n ← add? (← mul? 86400 (← sub? days days')) (← sub? seconds seconds')
  return UInt32.ofInt n

theorem span?_eq (d : Datetime) : d.span? = some (d.julianDay, d.daySeconds) := by
  have hyear := d.year.toNat_lt
  have hmonth := d.month.toNat_lt
  have hday := d.day.toNat_lt
  have hhour := d.hour.toNat_lt
  have hminute := d.minute.toNat_lt
  have hsecond := d.second.toNat_lt
  dsimp only [span?, julianDay, daySeconds]
  -- The months before March are at the end of a year, so no month of it is negative.
  obtain ⟨early, heq, hlow, hhigh, hmarch⟩ : ∃ early : Int,
      (if (d.month.toNat : Int) ≤ 2 then 1 else 0) = early ∧ 0 ≤ early ∧ early ≤ 1 ∧
        3 ≤ d.month.toNat + 12 * early := by
    by_cases hearly : (d.month.toNat : Int) ≤ 2
    · exact ⟨1, if_pos hearly, by omega, by omega, by omega⟩
    · exact ⟨0, if_neg hearly, by omega, by omega, by omega⟩
  rw [heq]
  rw [add?_bind _ (by omega), sub?_bind _ (by omega)]
  rw [mul?_bind _ (by omega), add?_bind _ (by omega), sub?_bind _ (by omega)]
  rw [mul?_bind _ (by omega), add?_bind _ (by omega), div?_bind _ (by omega) (by omega), add?_bind _ (by omega)]
  rw [mul?_bind _ (by omega), add?_bind _ (by omega)]
  rw [div?_bind _ (by omega) (by omega), add?_bind _ (by omega)]
  rw [div?_bind _ (by omega) (by omega), sub?_bind _ (by omega)]
  rw [div?_bind _ (by omega) (by omega), add?_bind _ (by omega)]
  rw [sub?_bind _ (by omega)]
  rw [mul?_bind _ (by omega), add?_bind _ (by omega), mul?_bind _ (by omega), add?_bind _ (by omega)]
  rfl

theorem julianDay_bounds (d : Datetime) : -32045 ≤ d.julianDay ∧ d.julianDay < 30000000 := by
  have hyear := d.year.toNat_lt
  have hmonth := d.month.toNat_lt
  have hday := d.day.toNat_lt
  dsimp only [julianDay]
  by_cases hearly : (d.month.toNat : Int) ≤ 2
  · simp only [if_pos hearly]
    omega
  · simp only [if_neg hearly]
    omega

theorem daySeconds_bounds (d : Datetime) : 0 ≤ d.daySeconds ∧ d.daySeconds < 1000000 := by
  have hhour := d.hour.toNat_lt
  have hminute := d.minute.toNat_lt
  have hsecond := d.second.toNat_lt
  dsimp only [daySeconds]
  omega

theorem diff?_eq (a b : Datetime) : a.diff? b = some (a.diff b) := by
  have hdays := a.julianDay_bounds
  have hdays' := b.julianDay_bounds
  have hseconds := a.daySeconds_bounds
  have hseconds' := b.daySeconds_bounds
  rw [diff?, span?_eq, some_bind]
  dsimp only
  rw [span?_eq, some_bind]
  dsimp only
  rw [sub?_bind _ (by omega), mul?_bind _ (by omega), sub?_bind _ (by omega), add?_bind _ (by omega)]
  rfl

/-! ### The place on the line of seconds -/

/-- The seconds up to a datetime, counted with the Julian days. -/
def timeline (d : Datetime) : Int := 86400 * d.julianDay + d.daySeconds

/-- The seconds in 32 bits. -/
def instant (d : Datetime) : UInt32 := UInt32.ofInt d.timeline

theorem diff_eq_sub (a b : Datetime) : a.diff b = a.instant - b.instant := by
  have helapsed : a.elapsed b = a.timeline + -b.timeline := by
    rw [elapsed, timeline, timeline]
    ring
  rw [diff, helapsed, UInt32.ofInt_add, UInt32.ofInt_neg, ← UInt32.sub_eq_add_neg, instant, instant]

/-- The seconds that a field counts by, for the fields that count by the same everywhere. -/
def Field.seconds? : Field → Option Nat
  | .second => some 1
  | .minute => some 60
  | .hour => some 3600
  | .day => some 86400
  | .month | .year | .weekday => none

/-- The Julian day before the first day of a month. -/
def monthStart (month : UInt8) (year : UInt16) : Int := julianDay ⟨0, 0, 0, 0, month, year, 0⟩

theorem julianDay_eq_add (d : Datetime) : d.julianDay = d.day.toNat + monthStart d.month d.year := by
  by_cases hearly : (d.month.toNat : Int) ≤ 2
  · simp only [monthStart, julianDay, if_pos hearly, UInt8.toNat_zero]
    omega
  · simp only [monthStart, julianDay, if_neg hearly, UInt8.toNat_zero]
    omega

theorem timeline_eq (d : Datetime) :
    d.timeline = 86400 * monthStart d.month d.year + d.second.toNat + 60 * d.minute.toNat + 3600 * d.hour.toNat +
      86400 * d.day.toNat := by
  rw [timeline, julianDay_eq_add, daySeconds]
  ring

theorem timeline_set {f : Field} {unit n : Nat} (hf : f.seconds? = some unit) (hn : d.get f + n < 256) :
    (d.set f (d.get f + n)).timeline = d.timeline + (n * unit : Nat) := by
  have hget : (UInt8.ofNat (d.get f + n)).toNat = d.get f + n := UInt8.toNat_ofNat_of_lt' hn
  rw [timeline_eq, timeline_eq d]
  cases f
  case month | year | weekday => cases hf
  all_goals
    cases hf
    simp only [set, hget]
    simp only [get]
    push_cast
    ring

theorem ofInt_natCast (n : Nat) : UInt32.ofInt n = UInt32.ofNat n := by
  have hword : UInt32.ofInt n = UInt32.ofNat ((n : Int) % 2 ^ 32).toNat := rfl
  rw [hword, ← UInt32.toNat_inj, UInt32.toNat_ofNat', UInt32.toNat_ofNat']
  omega

theorem instant_set {f : Field} {unit n : Nat} (hf : f.seconds? = some unit) (hn : d.get f + n < 256) :
    (d.set f (d.get f + n)).instant = d.instant + UInt32.ofNat (n * unit) := by
  rw [instant, timeline_set hf hn, UInt32.ofInt_add, ofInt_natCast, instant]

/-! ### Read with a sign -/

theorem toInt_neg_iff {n : UInt32} : (-n).toInt32.toInt = -n.toInt32.toInt ↔ n ≠ 0x80000000 := by
  have hsigned : ∀ k : UInt32, k.toInt32.toInt = if 2 * k.toNat < 2 ^ 32 then (k.toNat : Int) else k.toNat - 2 ^ 32 :=
    fun k => BitVec.toInt_eq_toNat_cond _
  have hnegated : (-n).toNat = (2 ^ 32 - n.toNat) % 2 ^ 32 := UInt32.toNat_neg n
  have hhalf : (0x80000000 : UInt32).toNat = 2 ^ 31 := rfl
  have hlt := n.toNat_lt
  rw [ne_eq, ← UInt32.toNat_inj, hsigned, hsigned, hnegated, hhalf]
  split <;> split <;> omega

/-- No step of the arithmetic behind a difference needs more than 64 bits, and the instruction leaves what it comes to. Differences add up, that of a datetime with itself is nothing, and the other way round a difference is its negation, also read with a sign, except for the one word that reads as a negative number and is its own negation. The weekday has no part in it, and a later second, minute, hour or day makes the difference as much more, or less. -/
theorem difference_wraps (a b c : Datetime) :
    (a.span? = some (a.julianDay, a.daySeconds) ∧ a.diff? b = some (a.diff b) ∧
        Value.datetimeDiff (.datetime a) (.datetime b) = .ok (.u32 (a.diff b))) ∧
      (a.diff b + b.diff c = a.diff c ∧ a.diff a = 0 ∧ b.diff a = -a.diff b) ∧
      ((b.diff a).toInt32.toInt = -(a.diff b).toInt32.toInt ↔ a.diff b ≠ 0x80000000) ∧
      (∀ weekday, { a with weekday }.diff b = a.diff b ∧ a.diff { b with weekday } = a.diff b) ∧
      ∀ f unit n, Field.seconds? f = some unit →
        (a.get f + n < 256 → (a.set f (a.get f + n)).diff b = a.diff b + UInt32.ofNat (n * unit)) ∧
        (b.get f + n < 256 → a.diff (b.set f (b.get f + n)) = a.diff b - UInt32.ofNat (n * unit)) := by
  have hreversed : b.diff a = -a.diff b := by rw [diff_eq_sub, diff_eq_sub, UInt32.neg_sub]
  refine ⟨⟨span?_eq a, diff?_eq a b, rfl⟩, ⟨?_, ?_, hreversed⟩, ?_, fun _ => ⟨rfl, rfl⟩, ?_⟩
  · rw [diff_eq_sub, diff_eq_sub, diff_eq_sub]
    grind
  · rw [diff_eq_sub, UInt32.sub_self]
  · rw [hreversed]
    exact toInt_neg_iff
  · intro f unit n hf
    constructor
    · intro hn
      rw [diff_eq_sub, diff_eq_sub, instant_set hf hn]
      grind
    · intro hn
      rw [diff_eq_sub, diff_eq_sub, instant_set hf hn]
      grind

/-- From the hour 200 of a day 254 in a month 0, and a day later. -/
theorem difference_wraps_outOfRange :
    Field.seconds? .day = some 86400 ∧ 254 + 1 < 256 ∧
      diff ⟨0, 0, 200, 255, 0, 2013, 0⟩ ⟨0, 0, 0, 1, 1, 2013, 0⟩ =
        diff ⟨0, 0, 200, 254, 0, 2013, 0⟩ ⟨0, 0, 0, 1, 1, 2013, 0⟩ + 86400 := by
  obtain ⟨-, -, -, -, hshift⟩ :=
    difference_wraps ⟨0, 0, 200, 254, 0, 2013, 0⟩ ⟨0, 0, 0, 1, 1, 2013, 0⟩ ⟨0, 0, 0, 1, 1, 2013, 0⟩
  exact ⟨rfl, by decide, (hshift .day 86400 1 rfl).1 (by decide)⟩

end Datetime

end RuleMachine
