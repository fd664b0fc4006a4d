import RuleMachine.Datetime.Basic

/-!
# Datetime algebra

Differences and comparisons of packed datetimes as they stand: fields outside their calendar range shift a result and never make it fail. The day of a datetime is its Julian day number by the closed formula for the Gregorian calendar, so the difference of two datetimes is the time between them wherever both name a date. Comparison is field by field under a mask and is therefore only a partial order.
-/

namespace RuleMachine.Datetime

/-- The Julian day number, counting months from March so that the leap day ends the year. -/
def julianDay (d : Datetime) : Int :=
  let month : Int := d.month.toNat
  let early : Int := if month ≤ 2 then 1 else 0
  let y : Int := d.year.toNat + 4800 - early
  let m : Int := month + 12 * early - 3
  d.day.toNat + (153 * m + 2) / 5 + 365 * y + y / 4 - y / 100 + y / 400 - 32045

def daySeconds (d : Datetime) : Int := d.second.toNat + 60 * d.minute.toNat + 3600 * d.hour.toNat

def elapsed (a b : Datetime) : Int := 86400 * (a.julianDay - b.julianDay) + (a.daySeconds - b.daySeconds)

/-- Seconds from `b` to `a` modulo 32 bits. -/
def diff (a b : Datetime) : UInt32 := UInt32.ofInt (a.elapsed b)

/-- Every selected field of `a` is at least that of `b`. -/
def fieldwiseGe (a b : Datetime) (m : Mask) : Bool :=
  m.fields.all fun f => b.get f ≤ a.get f

/-- The selected fields in the order in which they are pushed. -/
def decompose (d : Datetime) (m : Mask) : List UInt32 :=
  (Field.pushOrder.filter m.selects).map fun f => UInt32.ofNat (d.get f)

end RuleMachine.Datetime

