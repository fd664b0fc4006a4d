import Mathlib.Algebra.Group.Nat.Defs
import RuleMachine.Instruction.Encoding

/-!
# Fields under a mask

A datetime is its seven fields: it is determined by them, and setting one leaves the others. Restricting to a mask keeps exactly the selected fields and makes the others zero, so the literal of a datetime under a mask is the literal of the restriction.
-/

namespace RuleMachine.Datetime

theorem get_lt (d : Datetime) (f : Field) : d.get f < 256 ^ f.width := by
  cases f
  case year => exact d.year.toNat_lt
  all_goals exact UInt8.toNat_lt _

theorem get_set_self (d : Datetime) {f : Field} {n : Nat} (hn : n < 256 ^ f.width) : (d.set f n).get f = n := by
  cases f
  case year => exact UInt16.toNat_ofNat_of_lt' hn
  all_goals exact UInt8.toNat_ofNat_of_lt' hn

theorem get_set_of_ne (d : Datetime) {f g : Field} (n : Nat) (hne : g ≠ f) : (d.set f n).get g = d.get g := by
  cases f <;> cases g <;> first | rfl | exact absurd rfl hne

theorem get_zero (f : Field) : zero.get f = 0 := by cases f <;> rfl

theorem eq_of_get_eq {d e : Datetime} (h : ∀ f, d.get f = e.get f) : d = e := by
  obtain ⟨second, minute, hour, day, month, year, weekday⟩ := d
  obtain ⟨second', minute', hour', day', month', year', weekday'⟩ := e
  obtain rfl : second = second' := UInt8.toNat.inj (h .second)
  obtain rfl : minute = minute' := UInt8.toNat.inj (h .minute)
  obtain rfl : hour = hour' := UInt8.toNat.inj (h .hour)
  obtain rfl : day = day' := UInt8.toNat.inj (h .day)
  obtain rfl : month = month' := UInt8.toNat.inj (h .month)
  obtain rfl : year = year' := UInt16.toNat.inj (h .year)
  obtain rfl : weekday = weekday' := UInt8.toNat.inj (h .weekday)
  rfl

/-! ### The selected fields -/

namespace Mask

theorem nodup_fields (m : Mask) : m.fields.Nodup := List.Pairwise.filter _ (by decide)

theorem mem_fields {m : Mask} {f : Field} : f ∈ m.fields ↔ m.selects f = true := by
  rw [fields, List.mem_filter]
  exact and_iff_right (by cases f <;> decide)

end Mask

private theorem get_foldl_set (d : Datetime) (fields : List Field) (e : Datetime) (g : Field) :
    (fields.foldl (fun r f => r.set f (d.get f)) e).get g = if g ∈ fields then d.get g else e.get g := by
  induction fields generalizing e with
  | nil => rw [if_neg List.not_mem_nil, List.foldl_nil]
  | cons f fields ih =>
    rw [List.foldl_cons, ih]
    by_cases hmem : g ∈ fields
    · rw [if_pos hmem, if_pos (List.mem_cons_of_mem f hmem)]
    · rw [if_neg hmem]
      by_cases heq : g = f
      · rw [heq, get_set_self e (get_lt d f), if_pos List.mem_cons_self]
      · rw [get_set_of_ne e _ heq, if_neg (List.not_mem_cons_of_ne_of_not_mem heq hmem)]

theorem get_restrict (d : Datetime) (m : Mask) (f : Field) :
    (d.restrict m).get f = if m.selects f then d.get f else 0 := by
  simp only [restrict, get_foldl_set, get_zero, Mask.mem_fields]

/-- A datetime is its own restriction exactly when the fields that are not selected are zero. -/
theorem restrict_eq_self_iff {d : Datetime} {m : Mask} : d.restrict m = d ↔ ∀ f, f ∉ m.fields → d.get f = 0 := by
  constructor
  · intro h f hf
    rw [← h, get_restrict, if_neg (mt Mask.mem_fields.2 hf)]
  · intro h
    apply eq_of_get_eq
    intro f
    rw [get_restrict]
    split
    · rfl
    · next hf => exact (h f (mt Mask.mem_fields.1 hf)).symm

theorem restrict_restrict (d : Datetime) (m : Mask) : (d.restrict m).restrict m = d.restrict m := by
  apply restrict_eq_self_iff.2
  intro f hf
  rw [get_restrict, if_neg (mt Mask.mem_fields.2 hf)]

theorem literalBytes_restrict (d : Datetime) (m : Mask) : (d.restrict m).literalBytes m = d.literalBytes m := by
  have hbytes : ∀ f ∈ m.fields, BigEndian.encode f.width ((d.restrict m).get f) = BigEndian.encode f.width (d.get f) := by
    intro f hf
    rw [get_restrict, if_pos (Mask.mem_fields.1 hf)]
  rw [literalBytes, literalBytes, List.flatMap_def, List.flatMap_def, List.map_congr_left hbytes]

end RuleMachine.Datetime
