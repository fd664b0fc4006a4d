import RuleMachine.Single.Basic

/-!
# Shortest decimals

The decimal with the fewest digits that rounds to a given number, and of those the one nearest to it. A decimal grid is the multiples of a power of ten; the first grid, from the coarsest down, with a point that rounds to the number gives the digits, and a point of a grid rounds to the number only if one of its two neighbours on that grid does. Where the two are equally near, the user of the digits says which one is taken.
-/

namespace RuleMachine

/-- The number `digits * 10 ^ exponent`. -/
structure Decimal where
  digits : Nat
  exponent : Int
  deriving DecidableEq, Repr

/-- Which of two equally near decimals is taken. -/
inductive Tie where
  | upward
  | toEven

namespace Single

/-- The numbers that round to a positive one lie between `lower` and `upper`, all in units of `2 ^ (exponent - 2)`, and include both ends when the significand is even. -/
structure Interval where
  lower : Nat
  value : Nat
  upper : Nat
  exponent : Int
  closed : Bool

/-- At a power of two the lower neighbour is half as far away. -/
def interval (x : Single) : Interval :=
  let s := x.scaled
  let gap := if s.significand = exponentWeight then 1 else 2
  ⟨4 * s.significand - gap, 4 * s.significand, 4 * s.significand + 2, s.exponent - 2, s.significand % 2 = 0⟩

/-- The decimal on the grid of `10 ^ k` that rounds to the number, if there is one. -/
def Interval.decimalOn? (i : Interval) (tie : Tie) (k : Int) : Option Decimal :=
  let unit := Nat.pow 2 i.exponent.toNat * Nat.pow 10 (-k).toNat
  let step := Nat.pow 2 (-i.exponent).toNat * Nat.pow 10 k.toNat
  let rounds (d : Nat) : Bool :=
    if i.closed then i.lower * unit ≤ d * step && d * step ≤ i.upper * unit
    else i.lower * unit < d * step && d * step < i.upper * unit
  let below := i.value * unit / step
  let above := below + 1
  let preferAbove : Bool :=
    let twice := 2 * (i.value * unit % step)
    step < twice || (twice = step && match tie with | .upward => true | .toEven => below % 2 = 1)
  match rounds below, rounds above with
  | true, true => some ⟨if preferAbove then above else below, k⟩
  | true, false => some ⟨below, k⟩
  | false, true => some ⟨above, k⟩
  | false, false => none

/-- The exponents of the grids, from beyond the largest number down to below the finest step. -/
def gridExponents : List Int := (List.range 100).map fun (n : Nat) => 40 - (n : Int)

/-- The shortest decimal of the absolute value of a finite number. -/
def decimal (x : Single) (tie : Tie) : Decimal :=
  if x.isZero then ⟨0, 0⟩ else (gridExponents.findSome? (x.interval.decimalOn? tie)).getD ⟨0, 0⟩

/-- The number in positional notation, without a fraction when it is whole. -/
def text (x : Single) : String :=
  if x.isNaN then "NaN"
  else
    let sign := if x.negative then "-" else ""
    if x.isInfinite then sign ++ "inf"
    else
      let d := x.decimal .upward
      let digits := Nat.toDigits 10 d.digits
      if 0 ≤ d.exponent then sign ++ String.ofList (digits ++ List.replicate d.exponent.toNat '0')
      else
        let places := (-d.exponent).toNat
        let padded := List.replicate (places + 1 - digits.length) '0' ++ digits
        let whole := padded.take (padded.length - places)
        let fraction := padded.drop (padded.length - places)
        sign ++ String.ofList whole ++ "." ++ String.ofList fraction

end Single

end RuleMachine
