import RuleMachine.Proofs.Calendar.Written
import RuleMachine.Proofs.Datetime.Elapsed

/-!
# Datetimes made by the calendar

A datetime that is made from a moment, or from calendar fields that name one, has its weekday set by counting days around the week. The Julian day counts the same days by its own formula, so the one gives the other, and calendar fields make a datetime exactly if the calendar has their day and the clock their time.
-/

namespace RuleMachine

namespace Calendar

variable {year : Int} {month : Nat}

/-- April, June, September and November have 30 days and the other months 31, but February has 28, or 29 in a year that 4 divides, unless 100 divides it and 400 does not. -/
def gregorianLength (year : Int) (month : Nat) : Nat :=
  if month = 2 then if 4 ∣ year ∧ (¬100 ∣ year ∨ 400 ∣ year) then 29 else 28
  else if month = 4 ∨ month = 6 ∨ month = 9 ∨ month = 11 then 30 else 31

theorem monthLength_eq_gregorianLength (year : Int) (hlow : 1 ≤ month) (hhigh : month ≤ 12) :
    monthLength year month = gregorianLength year month := by
  have hleap : isLeap year = true ↔ 4 ∣ year ∧ (¬100 ∣ year ∨ 400 ∣ year) := by
    rw [isLeap_iff]
    omega
  by_cases hfebruary : month = 2
  · rw [hfebruary, monthLength, gregorianLength, if_pos rfl]
    simp only [hleap]
  · rw [gregorianLength, if_neg hfebruary]
    interval_cases month <;> first | rfl | exact absurd rfl hfebruary

theorem exists_day_iff {day : Nat} :
    1 ≤ day ∧ day ≤ monthLength year month ↔
      (1 ≤ month ∧ month ≤ 12) ∧ 1 ≤ day ∧ day ≤ gregorianLength year month := by
  constructor
  · intro h
    obtain ⟨hlow, hhigh⟩ := month_range_of_pos (Nat.lt_of_lt_of_le h.1 h.2)
    rw [← monthLength_eq_gregorianLength year hlow hhigh]
    exact ⟨⟨hlow, hhigh⟩, h⟩
  · rintro ⟨⟨hlow, hhigh⟩, h⟩
    rwa [monthLength_eq_gregorianLength year hlow hhigh]

end Calendar

theorem Date.weekday_tomorrow (d : Date) : d.tomorrow.weekday = (d.weekday + 1) % 7 := by
  rw [weekday, weekday, dayNumber_tomorrow]
  omega

namespace Moment

open Calendar

variable {year : Int} {month day hour minute second nanosecond : Nat}

theorem of?_eq_some_iff {m : Moment} :
    of? year month day hour minute second nanosecond = some m ↔
      (year = m.date.year ∧ month = m.date.month ∧ day = m.date.day) ∧
        hour = m.hour ∧ minute = m.minute ∧ second = m.second ∧ nanosecond = m.nanosecond := by
  constructor
  · intro h
    obtain ⟨date, hdate, hmoment⟩ := Option.bind_eq_some_iff.1 h
    obtain ⟨_, hdate⟩ := Option.dite_none_right_eq_some.1 hdate
    obtain ⟨_, hmoment⟩ := Option.dite_none_right_eq_some.1 hmoment
    cases hdate
    cases hmoment
    exact ⟨⟨rfl, rfl, rfl⟩, rfl, rfl, rfl, rfl⟩
  · rintro ⟨⟨rfl, rfl, rfl⟩, rfl, rfl, rfl, rfl⟩
    exact m.of?_parts

theorem isSome_of?_iff :
    (of? year month day hour minute second nanosecond).isSome ↔
      (1 ≤ day ∧ day ≤ monthLength year month) ∧
        (hour < 24 ∧ minute < 60 ∧ second < 60 ∧ nanosecond < 1000000000) ∧ -262143 ≤ year ∧ year ≤ 262142 := by
  constructor
  · intro h
    obtain ⟨m, hm⟩ := Option.isSome_iff_exists.1 h
    obtain ⟨⟨rfl, rfl, rfl⟩, rfl, rfl, rfl, rfl⟩ := of?_eq_some_iff.1 hm
    exact ⟨m.date.exists_day, m.time_valid, m.year_range⟩
  · rintro ⟨hday, htime, hyear⟩
    have hmoment := of?_parts ⟨⟨year, month, day, hday⟩, hour, minute, second, nanosecond, htime, hyear⟩
    exact Option.isSome_of_eq_some hmoment

end Moment

namespace Datetime

open Calendar

variable {m : Moment}

theorem weekday_ofMoment (m : Moment) : (ofMoment m).weekday.toNat = m.date.weekday := by
  simp only [ofMoment, Date.weekday, UInt8.toNat_ofNat']
  omega

/-- The weekday that is set is the one that the Julian day falls on. -/
theorem weekday_eq_julianDay (h : Fits m) :
    ((ofMoment m).weekday.toNat : Int) = ((ofMoment m).julianDay + 1) % 7 := by
  rw [weekday_ofMoment, julianDay_ofMoment h, Date.weekday]
  omega

variable {year : UInt16} {month day hour minute second : UInt8}

theorem isSome_ofCalendar?_iff :
    (ofCalendar? year month day hour minute second).isSome ↔
      (1 ≤ month ∧ month ≤ 12) ∧ (1 ≤ day ∧ day.toNat ≤ gregorianLength year.toNat month.toNat) ∧
        hour < 24 ∧ minute < 60 ∧ second < 60 := by
  have hyear : (year.toNat : Int) ≤ 262142 := by
    have := year.toNat_lt
    omega
  rw [ofCalendar?, Option.isSome_map, Moment.isSome_of?_iff, exists_day_iff]
  simp [UInt8.le_iff_toNat_le, UInt8.lt_iff_toNat_lt, hyear, and_assoc]

theorem fields_of_ofCalendar? {d : Datetime} (h : ofCalendar? year month day hour minute second = some d) :
    (d.year = year ∧ d.month = month ∧ d.day = day) ∧ (d.hour = hour ∧ d.minute = minute ∧ d.second = second) ∧
      (d.weekday.toNat : Int) = (d.julianDay + 1) % 7 := by
  obtain ⟨m, hm, rfl⟩ := Option.map_eq_some_iff.1 h
  obtain ⟨⟨hyear, hmonth, hday⟩, hhour, hminute, hsecond, -⟩ := Moment.of?_eq_some_iff.1 hm
  have hfits : Fits m := by
    have := year.toNat_lt
    rw [Fits, ← hyear]
    omega
  refine ⟨⟨?_, ?_, ?_⟩, ⟨?_, ?_, ?_⟩, weekday_eq_julianDay hfits⟩
  · exact UInt16.toNat_inj.1 (by exact_mod_cast (year_ofMoment hfits).trans hyear.symm)
  · exact UInt8.toNat_inj.1 ((month_ofMoment m).trans hmonth.symm)
  · exact UInt8.toNat_inj.1 ((day_ofMoment m).trans hday.symm)
  · rw [ofMoment, ← hhour, UInt8.ofNat_toNat]
  · rw [ofMoment, ← hminute, UInt8.ofNat_toNat]
  · rw [ofMoment, ← hsecond, UInt8.ofNat_toNat]

/-- The weekday of a moment goes with its Julian day, and with the days of the calendar one after the other. Calendar fields make a datetime exactly if they name a day of the calendar and a time of day, and it then has these fields and the weekday of its Julian day. -/
theorem calendar_construction_exact :
    (∀ m : Moment, Fits m → ((ofMoment m).weekday.toNat : Int) = ((ofMoment m).julianDay + 1) % 7) ∧
      (∀ m n : Moment, n.date = m.date.tomorrow →
        (ofMoment n).weekday.toNat = ((ofMoment m).weekday.toNat + 1) % 7) ∧
      ∀ (year : UInt16) (month day hour minute second : UInt8),
        ((ofCalendar? year month day hour minute second).isSome ↔
          (1 ≤ month ∧ month ≤ 12) ∧ (1 ≤ day ∧ day.toNat ≤ gregorianLength year.toNat month.toNat) ∧
            hour < 24 ∧ minute < 60 ∧ second < 60) ∧
          ∀ d, ofCalendar? year month day hour minute second = some d →
            (d.year = year ∧ d.month = month ∧ d.day = day) ∧
              (d.hour = hour ∧ d.minute = minute ∧ d.second = second) ∧
                (d.weekday.toNat : Int) = (d.julianDay + 1) % 7 := by
  refine ⟨fun m => weekday_eq_julianDay, ?_, ?_⟩
  · intro m n hnext
    rw [weekday_ofMoment, weekday_ofMoment, hnext, Date.weekday_tomorrow]
  · intro year month day hour minute second
    exact ⟨isSome_ofCalendar?_iff, fun d => fields_of_ofCalendar?⟩

/-- The leap day of 2024 was a Thursday. -/
theorem calendar_construction_exact_leapDay :
    ofCalendar? 2024 2 29 13 5 9 = some ⟨9, 5, 13, 29, 2, 2024, 4⟩ ∧
      ((4 : Nat) : Int) = (julianDay ⟨9, 5, 13, 29, 2, 2024, 4⟩ + 1) % 7 ∧
      (ofCalendar? 2023 2 29 0 0 0).isSome = false := by
  have hleap : ofCalendar? 2024 2 29 13 5 9 = some ⟨9, 5, 13, 29, 2, 2024, 4⟩ := by decide +kernel
  obtain ⟨-, -, hcalendar⟩ := calendar_construction_exact
  refine ⟨hleap, ((hcalendar 2024 2 29 13 5 9).2 _ hleap).2.2, ?_⟩
  rw [Bool.eq_false_iff, ne_eq, (hcalendar 2023 2 29 0 0 0).1]
  decide

end Datetime

end RuleMachine
