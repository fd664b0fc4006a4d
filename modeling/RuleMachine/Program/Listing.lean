import RuleMachine.Instruction.Decoding
import RuleMachine.Program.Basic

/-!
# Listings

The instructions of a program in the order of their bytes, from the end of the header on, each with its offset, its opcode and the entries that point at it. There is a listing exactly when the code is one instruction after another to its end.
-/

namespace RuleMachine.Program

/-- The instructions from `offset` to the end of the code, added to those `before`. -/
def instructionsFrom (bytes : Array UInt8) (offset : Nat) (before : Array (Nat × Instruction)) :
    Except CodeError (Array (Nat × Instruction)) :=
  if offset < bytes.size then
    match _hdecode : Instruction.decode bytes offset with
    | .error e => .error e
    | .ok (i, length) => instructionsFrom bytes (offset + length) (before.push (offset, i))
  else .ok before
termination_by bytes.size - offset
decreasing_by
  have := Instruction.decode_bounds _hdecode
  omega

/-- The instructions of the program with their offsets. -/
def instructions (p : Program) : Except CodeError (Array (Nat × Instruction)) := instructionsFrom p.bytes headerSize #[]

def listingLine (packet periodic : UInt16) (offset : Nat) (i : Instruction) : String :=
  Numeral.hex 4 offset ++ "  " ++ Numeral.hex 2 i.opcode.toByte.toNat ++ "  " ++ i.text ++
    (if offset = packet.toNat then "  <packet>" else "") ++ (if offset = periodic.toNat then "  <periodic>" else "") ++ "\n"

def listing (p : Program) : Except CodeError String := do
  let packet ← p.entryOffset .packet
  let periodic ← p.entryOffset .periodic
  let instructions ← p.instructions
  if instructions.isEmpty then .ok "(empty program)\n"
  else .ok (String.join (instructions.toList.map fun (offset, i) => listingLine packet periodic offset i))

end RuleMachine.Program
