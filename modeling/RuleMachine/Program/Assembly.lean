import RuleMachine.Instruction.Encoding
import RuleMachine.Program.Basic

/-!
# Assembling programs

A program under assembly starts as a header whose entries both point at the first instruction, and grows by instructions and raw bytes. The first instruction that cannot be written, or entry that cannot be marked, is remembered and makes the assembly fail in the end; no later instruction or mark has an effect.
-/

namespace RuleMachine

structure Assembly where
  code : Array UInt8
  error : Option CodeError

namespace Assembly

def start : Assembly := ⟨#[0, 0, 5, 0, 5], none⟩

def offset (a : Assembly) : Nat := a.code.size

/-- Lets an entry point at the current offset. -/
def mark (a : Assembly) (entry : Entry) : Assembly :=
  if a.error.isSome then a
  else if a.offset < 65536 then
    let high := UInt8.ofNat (a.offset / 256)
    let low := UInt8.ofNat a.offset
    { a with code := (a.code.setIfInBounds entry.headerOffset high).setIfInBounds (entry.headerOffset + 1) low }
  else { a with error := some (.programTooLarge a.offset) }

def append (a : Assembly) (i : Instruction) : Assembly :=
  if a.error.isSome then a
  else match i.encode with
    | .ok bytes => { a with code := a.code ++ bytes }
    | .error e => { a with error := some e }

def appendAll (a : Assembly) (instructions : List Instruction) : Assembly := instructions.foldl append a

/-- Appends a branch over cases of a value and a skip, the values cut to the width. -/
def switch (a : Assembly) (width : CaseWidth) (cases : List (UInt32 × UInt16)) : Assembly :=
  a.append (.switch (.ofCases width cases))

/-- The comparison of the bytes from `first` on with a literal. -/
def comparison (first : UInt8) (literal : List UInt8) : Instruction :=
  let last := if literal.isEmpty then first else UInt8.ofNat (min (first.toNat + literal.length - 1) 255)
  .compareBlock first last literal

/-- Appends a comparison of the bytes from `first` on with a literal. -/
def compareBlock (a : Assembly) (first : UInt8) (literal : List UInt8) : Assembly :=
  a.append (comparison first literal)

def raw (a : Assembly) (bytes : List UInt8) : Assembly := { a with code := a.code ++ bytes }

def finish (a : Assembly) : Except CodeError Program :=
  match a.error with
  | some e => .error e
  | none => Program.ofBytes a.code

end Assembly

end RuleMachine
