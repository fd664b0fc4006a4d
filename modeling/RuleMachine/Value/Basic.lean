import RuleMachine.Datetime.Basic
import RuleMachine.Single.Decimal

/-!
# Typed values

The values that programs compute with, and their kinds. Kinds are ranked by their tags; two operands of different kinds meet at the higher kind, within the integers for bit operations and within the integers and floats for arithmetic. Conversions go between exactly those kinds.
-/

namespace RuleMachine

/-- Sixteen raw bytes, usually a network address. -/
abbrev Block := Vector UInt8 16

inductive Kind where
  | undefined | bool | u8 | u32 | datetime | float | block
  deriving DecidableEq, Repr, Inhabited

namespace Kind

def all : List Kind := [.undefined, .bool, .u8, .u32, .datetime, .float, .block]

def tag : Kind → UInt8
  | .undefined => 0
  | .bool => 1
  | .u8 => 2
  | .u32 => 3
  | .datetime => 4
  | .float => 5
  | .block => 9

def isInteger : Kind → Bool
  | .bool | .u8 | .u32 => true
  | _ => false

def isArithmetic (k : Kind) : Bool := k.isInteger || k = .float

def name : Kind → String
  | .undefined => "undefined"
  | .bool => "bool"
  | .u8 => "u8"
  | .u32 => "u32"
  | .datetime => "datetime"
  | .float => "float"
  | .block => "block16"

def higher (a b : Kind) : Kind := if b.tag ≤ a.tag then a else b

/-- The kind at which two operands of arithmetic meet. -/
def promoteArithmetic? (a b : Kind) : Option Kind :=
  if a.isArithmetic && b.isArithmetic then some (a.higher b) else none

/-- The kind at which two operands of a bit operation meet. -/
def promoteInteger? (a b : Kind) : Option Kind :=
  if a.isInteger && b.isInteger then some (a.higher b) else none

end Kind

inductive Value where
  | undefined
  | bool (b : Bool)
  | u8 (n : UInt8)
  | u32 (n : UInt32)
  | float (x : Single)
  | datetime (d : Datetime)
  | block (bytes : Block)
  deriving DecidableEq, Repr, Inhabited

namespace Value

def kind : Value → Kind
  | undefined => .undefined
  | bool _ => .bool
  | u8 _ => .u8
  | u32 _ => .u32
  | float _ => .float
  | datetime _ => .datetime
  | block _ => .block

def word? : Value → Option UInt32
  | bool b => some (if b then 1 else 0)
  | u8 n => some n.toUInt32
  | u32 n => some n
  | _ => none

def single? : Value → Option Single
  | float x => some x
  | v => v.word?.map fun n => Single.ofNat n.toNat

def isZero? : Value → Option Bool
  | float x => some x.isZero
  | v => v.word?.map fun n => n == 0

/-- The value of an integer kind made from 32 bits: whether they are not zero, their low byte, or all of them. -/
def ofWord? (kind : Kind) (n : UInt32) : Option Value :=
  match kind with
  | .bool => some (bool (n != 0))
  | .u8 => some (u8 n.toUInt8)
  | .u32 => some (u32 n)
  | _ => none

def convert? (v : Value) (target : Kind) : Option Value :=
  if !target.isArithmetic || !v.kind.isArithmetic then none
  else if v.kind = target then some v
  else match v with
    | float x =>
      match target with
      | .bool => some (bool !x.isZero)
      | _ => ofWord? target x.truncate
    | _ => do
      let n ← v.word?
      if target = .float then some (float (Single.ofNat n.toNat)) else ofWord? target n

/-- Equality of kind and content, floats by value: the two zeros are equal and a NaN equals nothing. -/
def equals : Value → Value → Bool
  | float x, float y => x.eq y
  | v, w => v = w

def blockText (bytes : Block) : String :=
  String.intercalate ":" ((List.range 8).map fun i => Numeral.hexBytes ((bytes.toList.drop (2 * i)).take 2))

def text : Value → String
  | undefined => "undefined"
  | bool b => if b then "true" else "false"
  | u8 n => toString n.toNat ++ "u8"
  | u32 n => toString n.toNat ++ "u32"
  | float x => x.text ++ "f"
  | datetime d => d.text
  | block bytes => blockText bytes

end Value

end RuleMachine
