import RuleMachine.Calendar.Moment
import RuleMachine.Text.Blank
import RuleMachine.Text.Numeral

/-!
# Written moments

A moment is written as date and time with `T` between them. Years outside 0 to 9999 carry a sign, and the fraction of the second has as few of 3, 6 or 9 digits as show it exactly, none when it is zero. Reading is more lenient than writing: parts may have fewer digits, blanks may stand before each part, and digits of the fraction beyond the ninth are dropped.
-/

namespace RuleMachine.Moment

/-! ### Writing -/

def yearText (year : Int) : String :=
  let digits := Numeral.decimal 4 year.natAbs
  if year < 0 then "-" ++ digits else if 9999 < year then "+" ++ digits else digits

def fractionText (nanosecond : Nat) : String :=
  if nanosecond = 0 then ""
  else if nanosecond % 1000000 = 0 then "." ++ Numeral.decimal 3 (nanosecond / 1000000)
  else if nanosecond % 1000 = 0 then "." ++ Numeral.decimal 6 (nanosecond / 1000)
  else "." ++ Numeral.decimal 9 nanosecond

def text (m : Moment) : String :=
  let two := Numeral.decimal 2
  yearText m.date.year ++ "-" ++ two m.date.month ++ "-" ++ two m.date.day ++ "T" ++
    two m.hour ++ ":" ++ two m.minute ++ ":" ++ two m.second ++ fractionText m.nanosecond

/-! ### Reading -/

/-- A number of at least one digit and at most `limit`. -/
def readDigits (limit : Nat) (s : List Char) : Option (Nat × List Char) :=
  let digits := (s.take limit).takeWhile Char.isDigit
  if digits.isEmpty then none else some (Nat.ofDigitChars 10 digits 0, s.drop digits.length)

def readTwo (s : List Char) : Option (Nat × List Char) := readDigits 2 (skipBlanks s)

/-- A year of four digits at most, or of any number of digits after a sign. -/
def readYear (s : List Char) : Option (Int × List Char) :=
  match skipBlanks s with
  | '-' :: r => (readDigits r.length r).map fun (n, t) => (-(n : Int), t)
  | '+' :: r => (readDigits r.length r).map fun (n, t) => ((n : Int), t)
  | r => (readDigits 4 r).map fun (n, t) => ((n : Int), t)

def readMark (mark : Char) (s : List Char) : Option (List Char) :=
  match skipBlanks s with
  | c :: r => if c = mark then some r else none
  | [] => none

/-- The nanoseconds after the point, if there is one. -/
def readFraction : List Char → Option (Nat × List Char)
  | '.' :: r => do
    let digits := (r.take 9).takeWhile Char.isDigit
    let (n, t) ← readDigits 9 r
    some (n * Nat.pow 10 (9 - digits.length), t.dropWhile Char.isDigit)
  | s => some (0, s)

def parse? (s : List Char) : Option Moment := do
  let (year, s) ← readYear s
  let (month, s) ← readTwo (← readMark '-' s)
  let (day, s) ← readTwo (← readMark '-' s)
  let (hour, s) ← readTwo (← readMark 'T' s)
  let (minute, s) ← readTwo (← readMark ':' s)
  let (second, s) ← readTwo (← readMark ':' s)
  let (nanosecond, s) ← readFraction s
  if (skipBlanks s).isEmpty then of? year month day hour minute second nanosecond else none

end RuleMachine.Moment
