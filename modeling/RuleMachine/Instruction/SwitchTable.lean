import RuleMachine.BigEndian

/-!
# Switch tables

The table of a multi-way branch: entries of a case value in one of three widths and a skip, kept as the bytes that stand in the program. The first case with the wanted value decides.
-/

namespace RuleMachine

inductive CaseWidth where
  | w8 | w16 | w32
  deriving DecidableEq, Repr

namespace CaseWidth

def bytes : CaseWidth → Nat
  | .w8 => 1
  | .w16 => 2
  | .w32 => 4

/-- The bytes of a case value and its skip. -/
def entrySize (w : CaseWidth) : Nat := w.bytes + 2

theorem entrySize_pos (w : CaseWidth) : 0 < w.entrySize := Nat.succ_pos _

end CaseWidth

structure SwitchTable where
  width : CaseWidth
  entries : List UInt8
  deriving DecidableEq, Repr

namespace SwitchTable

/-- The table holds whole entries and nothing else. -/
def IsWhole (t : SwitchTable) : Prop := t.entries.length % t.width.entrySize = 0

def size (t : SwitchTable) : Nat := t.entries.length / t.width.entrySize

/-- The bytes of one case, its value cut to the width. -/
def encodeCase (width : CaseWidth) (case : UInt32 × UInt16) : List UInt8 :=
  BigEndian.encode width.bytes case.1.toNat ++ BigEndian.encode 2 case.2.toNat

def ofCases (width : CaseWidth) (cases : List (UInt32 × UInt16)) : SwitchTable :=
  ⟨width, cases.flatMap (encodeCase width)⟩

def readCase (width : CaseWidth) (bytes : List UInt8) : UInt32 × UInt16 :=
  (UInt32.ofNat (BigEndian.decode (bytes.take width.bytes)),
    UInt16.ofNat (BigEndian.decode ((bytes.drop width.bytes).take 2)))

/-- The first `count` cases that the bytes spell. -/
def readCases (width : CaseWidth) : Nat → List UInt8 → List (UInt32 × UInt16)
  | 0, _ => []
  | count + 1, bytes => readCase width bytes :: readCases width count (bytes.drop width.entrySize)

def cases (t : SwitchTable) : List (UInt32 × UInt16) := readCases t.width t.size t.entries

/-- The skip of the first case with this value. -/
def lookup? (t : SwitchTable) (key : UInt32) : Option UInt16 := (t.cases.find? (·.1 = key)).map (·.2)

end SwitchTable

end RuleMachine
