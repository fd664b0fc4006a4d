import RuleMachine.Text.Numeral

/-!
# Errors in program code

Why code cannot be read, or an instruction or a program cannot be written. Each error is its cause; the wording is in one place.
-/

namespace RuleMachine

inductive CodeError where
  /-- A read went beyond the end; `offset` is the first byte that is missing. -/
  | unexpectedEnd (offset : Nat)
  | invalidOpcode (byte : UInt8) (offset : Nat)
  | invalidBlockRange (first last : UInt8)
  /-- The literal of a block comparison does not have the length of its range. -/
  | blockLengthMismatch (expected found : Nat)
  | tooManyCases (count : Nat)
  | shortSkipOutOfRange (skip : UInt16)
  | unsupportedVersion (version : UInt8)
  | entryOutOfBounds (entry : UInt16)
  | programTooLarge (size : Nat)
  deriving DecidableEq, Repr

open Numeral in
def CodeError.message : CodeError → String
  | .unexpectedEnd offset => "Unexpected end of program at offset " ++ markedOffset offset
  | .invalidOpcode byte offset => "Invalid opcode " ++ markedByte byte ++ " at offset " ++ markedOffset offset
  | .invalidBlockRange first last => "Invalid block range " ++ toString first.toNat ++ "..=" ++ toString last.toNat
  | .blockLengthMismatch expected found =>
    "Block literal of " ++ toString found ++ " bytes for a range of " ++ toString expected
  | .tooManyCases count => "Switch table of " ++ toString count ++ " cases exceeds 255"
  | .shortSkipOutOfRange skip => "Short jump skip " ++ toString skip.toNat ++ " exceeds 255"
  | .unsupportedVersion version => "Unsupported program version: " ++ toString version.toNat
  | .entryOutOfBounds entry => "Entry offset " ++ markedOffset entry.toNat ++ " is outside the program"
  | .programTooLarge size => "Program of " ++ toString size ++ " bytes exceeds the address space"

end RuleMachine
