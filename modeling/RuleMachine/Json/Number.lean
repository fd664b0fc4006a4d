import RuleMachine.Json.Basic
import RuleMachine.Single.Decimal

/-!
# Numbers of JSON as machine numbers

A written number without fraction, exponent and sign is a natural number. Every written number is also a single precision number: one that fits 64 bits is rounded once, any other is read at double precision first, from as many leading digits as 64 bits hold and a power of ten. In the other direction a number is written with its shortest decimal, positionally as long as that stays short.
-/

namespace RuleMachine.JsonNumber

def nat? (n : JsonNumber) : Option Nat :=
  if n.negative || !n.fraction.isEmpty || n.exponent.isSome then none else some n.whole

/-! ### Reading at single precision -/

def maxWord : Nat := UInt64.size - 1

/-- Appends digits to `n` as long as 64 bits hold the result, and gives the number of digits left over. -/
def absorb (n : Nat) : List Char → Nat × Nat
  | [] => (n, 0)
  | c :: digits =>
    let next := n * 10 + (c.toNat - '0'.toNat)
    if next ≤ maxWord then absorb next digits else (n, digits.length + 1)

/-- The largest power of ten that double precision holds. -/
def maxPower : Nat := 308

def power (e : Nat) : Scaled := (FloatFormat.double.round? (Nat.pow 10 e) 1 0).getD ⟨0, 0⟩

def quotient (x y : Scaled) : Scaled :=
  (FloatFormat.double.round? x.significand y.significand (x.exponent - y.exponent)).getD ⟨0, 0⟩

/-- `x * 10 ^ e` at double precision, or nothing when it is beyond that; small numbers are divided by the largest power until the rest of the exponent is a power that double precision holds. -/
def scaleByTen (x : Scaled) (e : Int) : Option Scaled :=
  if 0 ≤ e then
    if e ≤ maxPower then
      let y := power e.toNat
      FloatFormat.double.round? (x.significand * y.significand) 1 (x.exponent + y.exponent)
    else if x.significand = 0 then some x else none
  else if -e ≤ maxPower then some (quotient x (power (-e).toNat))
  else if x.significand = 0 then some x
  else scaleByTen (quotient x (power maxPower)) (e + maxPower)
termination_by (-e).toNat
decreasing_by
  simp only [maxPower] at *
  omega

/-- The number with `significand * 10 ^ e` as its absolute value, by way of double precision. -/
def singleOfDecimal? (negative : Bool) (significand : Nat) (e : Int) : Option Single := do
  let wide ← FloatFormat.double.round? significand 1 0
  let x ← scaleByTen wide e
  return .ofQuotient negative x.significand 1 x.exponent

/-- The single precision number, or nothing when not even double precision reaches it. -/
def single? (n : JsonNumber) : Option Single :=
  let (significand, dropped) := absorb 0 (Nat.toDigits 10 n.whole)
  if n.fraction.isEmpty && n.exponent.isNone && dropped = 0 && (!n.negative || n.whole ≤ 0x8000000000000000) then
    some (.ofQuotient n.negative n.whole 1 0)
  else
    let (significand, unused) := absorb significand n.fraction
    let places := n.fraction.length - unused
    singleOfDecimal? n.negative significand ((dropped : Int) - places + n.exponent.getD 0)

/-! ### Writing -/

/-- A finite number by its shortest decimal: positional while its first digit stands from the sixth place after the point to the twelfth before it. -/
def ofSingle (x : Single) : JsonNumber :=
  let d := x.decimal .toEven
  let digits := Nat.toDigits 10 d.digits
  let first : Int := digits.length + d.exponent - 1
  if -6 ≤ first ∧ first ≤ 12 then
    if 0 ≤ d.exponent then ⟨x.negative, d.digits * Nat.pow 10 d.exponent.toNat, ['0'], none⟩
    else
      let places := (-d.exponent).toNat
      let padded := List.replicate (places - digits.length) '0' ++ digits
      ⟨x.negative, d.digits / Nat.pow 10 places, padded.drop (padded.length - places), none⟩
  else ⟨x.negative, (digits.head?.map fun c => c.toNat - '0'.toNat).getD 0, digits.tail, some first⟩

end RuleMachine.JsonNumber
