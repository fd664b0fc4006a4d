/-!
# Rounding to a binary format

A binary format keeps a fixed number of significand digits down to a least exponent. An exact quotient is rounded once, to the nearest number of the format and to the even one when two are equally near, in whole-number arithmetic throughout. Both the arithmetic on single precision numbers and the reading of decimals rest on this one rounding.
-/

namespace RuleMachine

/-- The number `significand * 2 ^ exponent`. -/
structure Scaled where
  significand : Nat
  exponent : Int
  deriving DecidableEq, Repr

/-- A format by the digits of its significand, the exponent of its least step and the first power of two beyond it. -/
structure FloatFormat where
  precision : Nat
  leastExponent : Int
  overflowExponent : Int

/-- `n / d` to the nearest whole number, a half to the even neighbour. -/
def roundedQuotient (n d : Nat) : Nat :=
  let whole := n / d
  let twice := 2 * (n % d)
  if twice < d ∨ (twice = d ∧ whole % 2 = 0) then whole else whole + 1

namespace FloatFormat

def single : FloatFormat := ⟨24, -149, 128⟩

def double : FloatFormat := ⟨53, -1074, 1024⟩

/-- The exponent of the format's steps around `n / d * 2 ^ e`: the significand then has exactly `precision` digits, unless the least exponent is reached first. -/
def stepExponent (f : FloatFormat) (n d : Nat) (e : Int) : Int :=
  let low := (Nat.log2 n : Int) - Nat.log2 d - f.precision
  let scaledNumerator := if low < 0 then n <<< (-low).toNat else n
  let scaledDenominator := if low < 0 then d else d <<< low.toNat
  let exact := if scaledNumerator < scaledDenominator <<< f.precision then low else low + 1
  max (e + exact) f.leastExponent

/-- `n / d * 2 ^ e` in the format, or nothing when it lies beyond the format. -/
def round? (f : FloatFormat) (n d : Nat) (e : Int) : Option Scaled :=
  if n = 0 then some ⟨0, f.leastExponent⟩ else
  let step := f.stepExponent n d e
  let shift := e - step
  let significand := if shift < 0 then roundedQuotient n (d <<< (-shift).toNat) else roundedQuotient (n <<< shift.toNat) d
  if (Nat.log2 significand : Int) + step < f.overflowExponent then some ⟨significand, step⟩ else none

end FloatFormat

end RuleMachine
