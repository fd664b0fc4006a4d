/-!
# Numerals in a fixed width

The digits of a number filled up with zeros on the left. Listings, dates and error texts are written with these and nothing else, so that a width is never cut: a number with more digits than the width is written in full.
-/

namespace RuleMachine.Numeral

/-- The digits of `n` in `base`, filled up with zeros to at least `width` characters. -/
def padded (base width n : Nat) : String :=
  let digits := Nat.toDigits base n
  String.ofList (List.replicate (width - digits.length) '0' ++ digits)

def decimal (width n : Nat) : String := padded 10 width n

def hex (width n : Nat) : String := padded 16 width n

/-- A byte as it is written in messages: `0x7f`. -/
def markedByte (b : UInt8) : String := "0x" ++ hex 2 b.toNat

/-- An offset into a program as it is written in messages: `0x0005`. -/
def markedOffset (offset : Nat) : String := "0x" ++ hex 4 offset

/-- Bytes as adjacent pairs of hexadecimal digits. -/
def hexBytes (bytes : List UInt8) : String := String.join (bytes.map fun b => hex 2 b.toNat)

end RuleMachine.Numeral
