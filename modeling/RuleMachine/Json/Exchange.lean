import RuleMachine.Calendar.Text
import RuleMachine.Config
import RuleMachine.Json.Number
import RuleMachine.Json.Reader
import RuleMachine.Opcode
import RuleMachine.State

/-!
# Exchange forms

How values, states and settings are exchanged as JSON. A record is an object with its fields in order, and may also be read from an array of them; a choice is its name, with its content as the single member of an object if it has content. Fields of a record that are not known are passed over, but a known one may not occur twice.
-/

namespace RuleMachine

namespace Json

/-! ### Records and choices -/

/-- The fields with these names, each if it is there. -/
def fields? (names : List String) : Json → Option (List (Option Json))
  | object members => do
    let named ← members.mapM fun (name, value) => name.map fun chars => (chars, value)
    names.mapM fun name =>
      match named.filter (·.1 = name.toList) with
      | [] => some none
      | [(_, value)] => some (some value)
      | _ => none
  | array items =>
    if items.length ≤ names.length then some (items.map some ++ List.replicate (names.length - items.length) none)
    else none
  | _ => none

/-- The name of a choice and its content, which a bare name does not have. -/
def choice? : Json → Option (List Char × Option Json)
  | string s => s.map fun name => (name, none)
  | object [(name, content)] => name.map fun name => (name, some content)
  | _ => none

/-- The content of a choice without content: absent, or nothing in its place. -/
def isEmptyContent : Option Json → Bool
  | none => true
  | some null => true
  | some _ => false

/-- The one of `choices` that is named, where no choice has content. -/
def plainChoice? {α : Type} (choices : List α) (name : α → String) (j : Json) : Option α := do
  let (chosen, content) ← j.choice?
  if isEmptyContent content then choices.find? fun a => (name a).toList = chosen else none

/-! ### Plain values -/

def natBelow? (bound : Nat) : Json → Option Nat
  | number n => n.nat?.filter (· < bound)
  | _ => none

def u8? (j : Json) : Option UInt8 := (j.natBelow? UInt8.size).map UInt8.ofNat

def u16? (j : Json) : Option UInt16 := (j.natBelow? UInt16.size).map UInt16.ofNat

def u32? (j : Json) : Option UInt32 := (j.natBelow? UInt32.size).map UInt32.ofNat

def bool? : Json → Option Bool
  | bool b => some b
  | _ => none

def single? : Json → Option Single
  | number n => n.single?
  | _ => none

end Json

open Json

/-! ### Kinds, opcodes and masks -/

def Kind.exchangeName : Kind → String
  | .undefined => "Undefined"
  | .bool => "Bool"
  | .u8 => "U8"
  | .u32 => "U32"
  | .datetime => "Datetime"
  | .float => "Float"
  | .block => "Block16"

def Kind.toJson (k : Kind) : Json := .ofString k.exchangeName

def Kind.ofJson? (j : Json) : Option Kind := j.plainChoice? Kind.all Kind.exchangeName

def Opcode.toJson (o : Opcode) : Json := .ofString o.exchangeName

def Opcode.ofJson? (j : Json) : Option Opcode := j.plainChoice? Opcode.all Opcode.exchangeName

def Datetime.Mask.toJson (m : Datetime.Mask) : Json := .ofNat m.bits.toNat

def Datetime.Mask.ofJson? (j : Json) : Option Datetime.Mask := j.u8?.map fun bits => ⟨bits⟩

/-! ### Datetimes and values -/

namespace Datetime

def toJson (d : Datetime) : Json :=
  .ofMembers [("second", .ofNat d.second.toNat), ("minute", .ofNat d.minute.toNat), ("hour", .ofNat d.hour.toNat),
    ("day", .ofNat d.day.toNat), ("month", .ofNat d.month.toNat), ("year", .ofNat d.year.toNat),
    ("weekday", .ofNat d.weekday.toNat)]

def ofJson? (j : Json) : Option Datetime := do
  match ← j.fields? ["second", "minute", "hour", "day", "month", "year", "weekday"] with
  | [some second, some minute, some hour, some day, some month, some year, some weekday] =>
    return ⟨← second.u8?, ← minute.u8?, ← hour.u8?, ← day.u8?, ← month.u8?, ← year.u16?, ← weekday.u8?⟩
  | _ => none

end Datetime

def Block.ofJson? : Json → Option Block
  | .array items => do
    let bytes ← items.mapM Json.u8?
    if h : bytes.toArray.size = 16 then some ⟨bytes.toArray, h⟩ else none
  | _ => none

namespace Value

/-- Only finite floats have a number to stand for them. -/
def content : Value → Json
  | undefined => .null
  | bool b => .bool b
  | u8 n => .ofNat n.toNat
  | u32 n => .ofNat n.toNat
  | float x => if x.isNaN || x.isInfinite then .null else .number (.ofSingle x)
  | datetime d => d.toJson
  | block bytes => .array (bytes.toList.map fun b => .ofNat b.toNat)

def toJson (v : Value) : Json :=
  if v.kind = .undefined then v.kind.toJson else .ofMembers [(v.kind.exchangeName, v.content)]

def ofContent? : Kind → Json → Option Value
  | .undefined, _ => none
  | .bool, j => j.bool?.map bool
  | .u8, j => j.u8?.map u8
  | .u32, j => j.u32?.map u32
  | .float, j => j.single?.map float
  | .datetime, j => (Datetime.ofJson? j).map datetime
  | .block, j => (Block.ofJson? j).map block

def ofJson? (j : Json) : Option Value := do
  let (chosen, content) ← j.choice?
  let kind ← Kind.all.find? fun k => k.exchangeName.toList = chosen
  if kind = .undefined then if isEmptyContent content then some undefined else none
  else ofContent? kind (← content)

end Value

/-! ### Settings and states -/

def Json.orDefault {α : Type} (default : α) (read : Json → Option α) : Option Json → Option α
  | none => some default
  | some j => read j

namespace Config

def toJson (c : Config) : Json :=
  .ofMembers [("initial_state", .ofNat c.initialState.toNat), ("stack_limit", .ofNat c.stackLimit),
    ("validate_on_load", .bool c.validateOnLoad)]

/-- A setting that is missing has its usual value. -/
def ofJson? (j : Json) : Option Config := do
  let usual : Config := {}
  match ← j.fields? ["initial_state", "stack_limit", "validate_on_load"] with
  | [initialState, stackLimit, validateOnLoad] =>
    return ⟨← orDefault usual.initialState Json.u32? initialState,
      ← orDefault usual.stackLimit (Json.natBelow? UInt64.size) stackLimit,
      ← orDefault usual.validateOnLoad Json.bool? validateOnLoad⟩
  | _ => none

end Config

def Moment.ofJson? : Json → Option Moment
  | .string (some chars) => Moment.parse? chars
  | _ => none

namespace RuleState

def toJson (s : RuleState) : Json :=
  .ofMembers [("current_state", .ofNat s.current.toNat), ("state_entered_at", .ofNat s.enteredAt.toNat),
    ("creation_time", .ofString s.created.text)]

def ofJson? (j : Json) : Option RuleState := do
  match ← j.fields? ["current_state", "state_entered_at", "creation_time"] with
  | [some current, some enteredAt, some created] =>
    return ⟨← current.u32?, ← enteredAt.u32?, ← Moment.ofJson? created⟩
  | _ => none

end RuleState

end RuleMachine
