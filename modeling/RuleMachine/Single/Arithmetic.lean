import RuleMachine.Single.Basic

/-!
# Arithmetic on single precision numbers

Each operation takes the exact result and rounds it once. The exceptional cases are those of binary floating-point arithmetic: a NaN operand or an undefined result gives the quiet NaN, and a zero sum of numbers that are not both negative zeros is positive.
-/

namespace RuleMachine.Single

/-- A finite number as a whole multiple of `2 ^ e`, for an `e` no greater than its exponent. -/
def multipleOf (x : Single) (e : Int) : Int :=
  let s := x.scaled
  let n := s.significand <<< (s.exponent - e).toNat
  if x.negative then -n else n

def add (x y : Single) : Single :=
  if x.isNaN || y.isNaN then nan
  else if x.isInfinite then if y.isInfinite && x.negative != y.negative then nan else x
  else if y.isInfinite then y
  else
    let e := min x.scaled.exponent y.scaled.exponent
    let sum := x.multipleOf e + y.multipleOf e
    if sum = 0 then zero (x.negative && y.negative) else ofQuotient (sum < 0) sum.natAbs 1 e

def neg (x : Single) : Single := ofMagnitude (!x.negative) x.magnitude

def sub (x y : Single) : Single := x.add y.neg

def mul (x y : Single) : Single :=
  let negative := x.negative != y.negative
  if x.isNaN || y.isNaN then nan
  else if x.isInfinite || y.isInfinite then if x.isZero || y.isZero then nan else infinite negative
  else
    let s := x.scaled
    let t := y.scaled
    ofQuotient negative (s.significand * t.significand) 1 (s.exponent + t.exponent)

def div (x y : Single) : Single :=
  let negative := x.negative != y.negative
  if x.isNaN || y.isNaN then nan
  else if x.isInfinite then if y.isInfinite then nan else infinite negative
  else if y.isInfinite then zero negative
  else if y.isZero then if x.isZero then nan else infinite negative
  else
    let s := x.scaled
    let t := y.scaled
    ofQuotient negative s.significand t.significand (s.exponent - t.exponent)

end RuleMachine.Single
