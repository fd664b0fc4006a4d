import RuleMachine.Reader

/-!
# Programs

A program is a header, a version byte and the offset at which each kind of run begins, followed by code. Only its size is checked when it is made; the header is checked on its own, and again whenever a run reads it.
-/

namespace RuleMachine

inductive Entry where
  | packet
  | periodic
  deriving DecidableEq, Repr

namespace Entry

/-- Where the header holds the offset of the entry. -/
def headerOffset : Entry → Nat
  | .packet => 1
  | .periodic => 3

def name : Entry → String
  | .packet => "packet"
  | .periodic => "periodic"

end Entry

structure Program where
  bytes : Array UInt8
  size_le : bytes.size ≤ 65536
  deriving DecidableEq

namespace Program

def headerSize : Nat := 5

def supportedVersion : UInt8 := 0

def ofBytes (bytes : Array UInt8) : Except CodeError Program :=
  if h : bytes.size ≤ 65536 then .ok ⟨bytes, h⟩ else .error (.programTooLarge bytes.size)

def size (p : Program) : Nat := p.bytes.size

def version (p : Program) : Except CodeError UInt8 := do
  let (version, _) ← Reader.u8 ⟨p.bytes, 0⟩
  if version = supportedVersion then .ok version else .error (.unsupportedVersion version)

def entryOffset (p : Program) (entry : Entry) : Except CodeError UInt16 := do
  let _ ← p.version
  let (offset, _) ← Reader.u16 ⟨p.bytes, entry.headerOffset⟩
  return offset

def checkEntry (p : Program) (entry : Entry) : Except CodeError Unit := do
  let offset ← p.entryOffset entry
  if headerSize ≤ offset.toNat ∧ offset.toNat < p.size then .ok () else .error (.entryOutOfBounds offset)

/-- The header is readable and both entries lie in the code. -/
def validate (p : Program) : Except CodeError Unit := do
  p.checkEntry .packet
  p.checkEntry .periodic

end Program

end RuleMachine
