import RuleMachine.Single.Rounding

/-!
# Single precision numbers

A single precision number is its 32 bits, so numbers are told apart bit by bit and a NaN keeps its payload wherever it is only moved. The order and equality of the numeric comparisons are separate: they go by value, take the two zeros for one and never hold of a NaN. The magnitude, read as a whole number, grows with the value, which is what the comparisons use.
-/

namespace RuleMachine

structure Single where
  bits : UInt32
  deriving DecidableEq, Repr, Inhabited

namespace Single

/-- The place value of the sign. -/
def signWeight : Nat := 0x80000000

/-- The place value of the lowest bit of the exponent. -/
def exponentWeight : Nat := 0x800000

def negative (x : Single) : Bool := signWeight ≤ x.bits.toNat

/-- The bits below the sign. -/
def magnitude (x : Single) : Nat := x.bits.toNat % signWeight

/-- The magnitude of the infinities; every greater one is a NaN. -/
def infiniteMagnitude : Nat := 255 * exponentWeight

def ofMagnitude (negative : Bool) (magnitude : Nat) : Single :=
  ⟨UInt32.ofNat ((if negative then signWeight else 0) + magnitude)⟩

def zero (negative : Bool) : Single := ofMagnitude negative 0

def infinite (negative : Bool) : Single := ofMagnitude negative infiniteMagnitude

def nan : Single := ⟨0x7fc00000⟩

def isNaN (x : Single) : Bool := infiniteMagnitude < x.magnitude

def isInfinite (x : Single) : Bool := x.magnitude = infiniteMagnitude

/-- The absolute value of a finite number. -/
def scaled (x : Single) : Scaled :=
  let exponent : Nat := x.magnitude / exponentWeight
  let fraction : Nat := x.magnitude % exponentWeight
  if exponent = 0 then ⟨fraction, -149⟩ else ⟨fraction + exponentWeight, (exponent : Int) - 150⟩

/-- The number with a sign and an absolute value that the format holds; without one it is infinite. -/
def ofScaled (negative : Bool) : Option Scaled → Single
  | some s => ofMagnitude negative ((s.exponent + 149).toNat * exponentWeight + s.significand)
  | none => infinite negative

/-- The number nearest to `n / d * 2 ^ e`. -/
def ofQuotient (negative : Bool) (n d : Nat) (e : Int) : Single :=
  ofScaled negative (FloatFormat.single.round? n d e)

def ofNat (n : Nat) : Single := ofQuotient false n 1 0

/-! ### Comparison by value -/

/-- Places the numbers in order, both zeros at one point. -/
def rank (x : Single) : Int := if x.negative then -x.magnitude else x.magnitude

def lt (x y : Single) : Bool := !x.isNaN && !y.isNaN && x.rank < y.rank

def le (x y : Single) : Bool := !x.isNaN && !y.isNaN && x.rank ≤ y.rank

def eq (x y : Single) : Bool := !x.isNaN && !y.isNaN && x.rank = y.rank

def isZero (x : Single) : Bool := x.magnitude = 0

/-! ### Whole numbers -/

/-- The number with its fraction dropped, as far as 32 bits reach: negative numbers and NaN give 0. -/
def truncate (x : Single) : UInt32 :=
  if x.isNaN || x.negative then 0
  else if x.isInfinite then 0xffffffff
  else
    let s := x.scaled
    let whole := if s.exponent < 0 then s.significand >>> (-s.exponent).toNat else s.significand <<< s.exponent.toNat
    UInt32.ofNat (min whole 0xffffffff)

end Single

end RuleMachine
