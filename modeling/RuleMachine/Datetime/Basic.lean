import RuleMachine.Calendar.Moment
import RuleMachine.Text.Numeral

/-!
# Packed date and time

A packed datetime is seven independent fields, and programs may put any number into any of them. A mask byte selects fields, one bit for each; the highest bit selects nothing and is carried along. Everything that goes by a mask, here and in the encoding of literals, asks the same question of the same table of bits, so the mask has one meaning.
-/

namespace RuleMachine

structure Datetime where
  second : UInt8
  minute : UInt8
  hour : UInt8
  day : UInt8
  month : UInt8
  year : UInt16
  /-- 0 is Sunday. -/
  weekday : UInt8
  deriving DecidableEq, Repr, Inhabited

namespace Datetime

inductive Field where
  | second | minute | hour | day | month | year | weekday
  deriving DecidableEq, Repr

structure Mask where
  bits : UInt8
  deriving DecidableEq, Repr

def Field.bit : Field → UInt8
  | .second => 0x01
  | .minute => 0x02
  | .hour => 0x04
  | .day => 0x08
  | .month => 0x10
  | .year => 0x20
  | .weekday => 0x40

def Field.width : Field → Nat
  | .year => 2
  | _ => 1

/-- The fields in the order of their bits, which is also their order in a literal. -/
def Field.all : List Field := [.second, .minute, .hour, .day, .month, .year, .weekday]

/-- The fields in the order in which they are pushed when a datetime is taken apart. -/
def Field.pushOrder : List Field := [.weekday, .year, .month, .day, .hour, .minute, .second]

namespace Mask

def all : Mask := ⟨0x7f⟩

def none : Mask := ⟨0⟩

/-- Every bit of `other` is set. -/
def contains (m other : Mask) : Bool := m.bits &&& other.bits = other.bits

def union (m other : Mask) : Mask := ⟨m.bits ||| other.bits⟩

def selects (m : Mask) (f : Field) : Bool := m.contains ⟨f.bit⟩

/-- The selected fields in the order of their bits. -/
def fields (m : Mask) : List Field := Field.all.filter m.selects

end Mask

def zero : Datetime := ⟨0, 0, 0, 0, 0, 0, 0⟩

def get (d : Datetime) : Field → Nat
  | .second => d.second.toNat
  | .minute => d.minute.toNat
  | .hour => d.hour.toNat
  | .day => d.day.toNat
  | .month => d.month.toNat
  | .year => d.year.toNat
  | .weekday => d.weekday.toNat

def set (d : Datetime) (f : Field) (n : Nat) : Datetime :=
  match f with
  | .second => { d with second := UInt8.ofNat n }
  | .minute => { d with minute := UInt8.ofNat n }
  | .hour => { d with hour := UInt8.ofNat n }
  | .day => { d with day := UInt8.ofNat n }
  | .month => { d with month := UInt8.ofNat n }
  | .year => { d with year := UInt16.ofNat n }
  | .weekday => { d with weekday := UInt8.ofNat n }

/-- The fields of `d` that the mask selects, zero in the others. -/
def restrict (d : Datetime) (m : Mask) : Datetime :=
  m.fields.foldl (fun r f => r.set f (d.get f)) zero

/-- The datetime of a moment, its year brought into the range of the field. -/
def ofMoment (m : Moment) : Datetime where
  second := UInt8.ofNat m.second
  minute := UInt8.ofNat m.minute
  hour := UInt8.ofNat m.hour
  day := UInt8.ofNat m.date.day
  month := UInt8.ofNat m.date.month
  year := UInt16.ofNat (min m.date.year.toNat 0xffff)
  weekday := UInt8.ofNat m.date.weekday

/-- The datetime with these calendar fields, if there is such a date and time of day. -/
def ofCalendar? (year : UInt16) (month day hour minute second : UInt8) : Option Datetime :=
  (Moment.of? year.toNat month.toNat day.toNat hour.toNat minute.toNat second.toNat 0).map ofMoment

def text (d : Datetime) : String :=
  let two (b : UInt8) := Numeral.decimal 2 b.toNat
  Numeral.decimal 4 d.year.toNat ++ "-" ++ two d.month ++ "-" ++ two d.day ++ " " ++
    two d.hour ++ ":" ++ two d.minute ++ ":" ++ two d.second ++ " wd" ++ toString d.weekday.toNat

end Datetime

end RuleMachine
