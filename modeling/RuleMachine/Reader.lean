import RuleMachine.BigEndian
import RuleMachine.CodeError
import RuleMachine.Single.Basic

/-!
# Reading bytes in order

A position in a sequence of bytes, from which numbers are read one after another. Every read is a run of bytes taken whole or refused, so a refused read leaves the position where it was, and the offset it reports is where the bytes give out.
-/

namespace RuleMachine

structure Reader where
  bytes : Array UInt8
  position : Nat

namespace Reader

def rest (r : Reader) : List UInt8 := r.bytes.toList.drop r.position

def take (r : Reader) (n : Nat) : Except CodeError (List UInt8 × Reader) :=
  if r.position + n ≤ r.bytes.size then
    .ok ((r.bytes.extract r.position (r.position + n)).toList, { r with position := r.position + n })
  else .error (.unexpectedEnd (max r.bytes.size r.position))

def number (r : Reader) (width : Nat) : Except CodeError (Nat × Reader) := do
  let (bytes, r) ← r.take width
  return (BigEndian.decode bytes, r)

def u8 (r : Reader) : Except CodeError (UInt8 × Reader) := do
  let (n, r) ← r.number 1
  return (UInt8.ofNat n, r)

def u16 (r : Reader) : Except CodeError (UInt16 × Reader) := do
  let (n, r) ← r.number 2
  return (UInt16.ofNat n, r)

def u32 (r : Reader) : Except CodeError (UInt32 × Reader) := do
  let (n, r) ← r.number 4
  return (UInt32.ofNat n, r)

def single (r : Reader) : Except CodeError (Single × Reader) := do
  let (bits, r) ← r.u32
  return (⟨bits⟩, r)

/-! ### Progress -/

/-- Reading can lead from `r` to `r'`: the same bytes, no earlier position, and not beyond the end. -/
structure Reaches (r r' : Reader) : Prop where
  bytes_eq : r'.bytes = r.bytes
  position_le : r.position ≤ r'.position
  position_le_max : r'.position ≤ max r.position r.bytes.size

theorem Reaches.refl (r : Reader) : r.Reaches r := ⟨rfl, Nat.le_refl _, Nat.le_max_left _ _⟩

theorem Reaches.trans {a b c : Reader} (hab : a.Reaches b) (hbc : b.Reaches c) : a.Reaches c := by
  have h := hbc.position_le_max
  rw [hab.bytes_eq] at h
  exact ⟨hbc.bytes_eq.trans hab.bytes_eq, Nat.le_trans hab.position_le hbc.position_le,
    Nat.le_trans h (Nat.max_le.2 ⟨hab.position_le_max, Nat.le_max_right _ _⟩)⟩

theorem take_eq_ok {r r' : Reader} {n : Nat} {bytes : List UInt8} (h : r.take n = .ok (bytes, r')) :
    r.position + n ≤ r.bytes.size ∧ bytes = (r.bytes.extract r.position (r.position + n)).toList ∧
      r' = ⟨r.bytes, r.position + n⟩ := by
  unfold take at h
  split at h
  · next hle =>
    cases h
    exact ⟨hle, rfl, rfl⟩
  · cases h

theorem reaches_of_take {r r' : Reader} {n : Nat} {bytes : List UInt8} (h : r.take n = .ok (bytes, r')) : r.Reaches r' := by
  obtain ⟨hle, -, rfl⟩ := take_eq_ok h
  exact ⟨rfl, Nat.le_add_right _ _, Nat.le_trans hle (Nat.le_max_right _ _)⟩

/-- A read that goes on from what `read` gave has succeeded only if `read` has. -/
theorem bind_eq_ok {α β : Type} {read : Except CodeError α} {next : α → Except CodeError β} {b : β}
    (h : read >>= next = .ok b) : ∃ a, read = .ok a ∧ next a = .ok b := by
  cases read with
  | error e => cases h
  | ok a => exact ⟨a, rfl, h⟩

theorem number_eq_ok {r r' : Reader} {width n : Nat} (h : r.number width = .ok (n, r')) :
    ∃ bytes, r.take width = .ok (bytes, r') ∧ n = BigEndian.decode bytes := by
  obtain ⟨⟨bytes, s⟩, htake, heq⟩ := bind_eq_ok h
  cases heq
  exact ⟨bytes, htake, rfl⟩

theorem reaches_of_number {r r' : Reader} {width n : Nat} (h : r.number width = .ok (n, r')) : r.Reaches r' :=
  have ⟨_, htake, _⟩ := number_eq_ok h
  reaches_of_take htake

theorem u8_eq_ok {r r' : Reader} {b : UInt8} (h : r.u8 = .ok (b, r')) :
    ∃ n, r.number 1 = .ok (n, r') ∧ b = UInt8.ofNat n := by
  obtain ⟨⟨n, s⟩, hnumber, heq⟩ := bind_eq_ok h
  cases heq
  exact ⟨n, hnumber, rfl⟩

theorem u16_eq_ok {r r' : Reader} {n : UInt16} (h : r.u16 = .ok (n, r')) :
    ∃ m, r.number 2 = .ok (m, r') ∧ n = UInt16.ofNat m := by
  obtain ⟨⟨m, s⟩, hnumber, heq⟩ := bind_eq_ok h
  cases heq
  exact ⟨m, hnumber, rfl⟩

theorem u32_eq_ok {r r' : Reader} {n : UInt32} (h : r.u32 = .ok (n, r')) :
    ∃ m, r.number 4 = .ok (m, r') ∧ n = UInt32.ofNat m := by
  obtain ⟨⟨m, s⟩, hnumber, heq⟩ := bind_eq_ok h
  cases heq
  exact ⟨m, hnumber, rfl⟩

theorem single_eq_ok {r r' : Reader} {x : Single} (h : r.single = .ok (x, r')) : r.u32 = .ok (x.bits, r') := by
  obtain ⟨⟨bits, s⟩, hu32, heq⟩ := bind_eq_ok h
  cases heq
  exact hu32

theorem reaches_of_u8 {r r' : Reader} {b : UInt8} (h : r.u8 = .ok (b, r')) : r.Reaches r' :=
  have ⟨_, hnumber, _⟩ := u8_eq_ok h
  reaches_of_number hnumber

theorem reaches_of_u16 {r r' : Reader} {n : UInt16} (h : r.u16 = .ok (n, r')) : r.Reaches r' :=
  have ⟨_, hnumber, _⟩ := u16_eq_ok h
  reaches_of_number hnumber

theorem reaches_of_u32 {r r' : Reader} {n : UInt32} (h : r.u32 = .ok (n, r')) : r.Reaches r' :=
  have ⟨_, hnumber, _⟩ := u32_eq_ok h
  reaches_of_number hnumber

theorem reaches_of_single {r r' : Reader} {x : Single} (h : r.single = .ok (x, r')) : r.Reaches r' :=
  reaches_of_u32 (single_eq_ok h)

/-- A byte that was read moved the position by one, inside the bytes. -/
theorem position_of_u8 {r r' : Reader} {b : UInt8} (h : r.u8 = .ok (b, r')) :
    r'.bytes = r.bytes ∧ r'.position = r.position + 1 ∧ r'.position ≤ r.bytes.size := by
  obtain ⟨_, hnumber, _⟩ := u8_eq_ok h
  obtain ⟨_, htake, _⟩ := number_eq_ok hnumber
  obtain ⟨hle, _, rfl⟩ := take_eq_ok htake
  exact ⟨rfl, rfl, hle⟩

end Reader

end RuleMachine
