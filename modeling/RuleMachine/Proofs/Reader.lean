import Mathlib.Algebra.Group.Nat.Defs
import Mathlib.Data.List.Induction
import RuleMachine.Proofs.Except
import RuleMachine.Reader

/-!
# Reading is exact

A read succeeds exactly when the bytes that spell its result stand at the position and move the reader over them. `Spans` says which bytes lie between two positions; every kind of read is described by it, and spans are put together and cut apart like the lists they hold. What is built on readers therefore reasons about lists of bytes only.
-/

namespace RuleMachine

namespace BigEndian

theorem decode_encode (width n : Nat) : decode (encode width n) = n % 256 ^ width := by
  induction width generalizing n with
  | zero => rw [encode, decode_nil, Nat.pow_zero, Nat.mod_one]
  | succ width ih =>
    have hbyte : (UInt8.ofNat n).toNat = n % 256 := UInt8.toNat_ofNat'
    rw [encode, decode_concat, ih, hbyte, Nat.pow_succ', Nat.mod_mul, Nat.mul_comm, Nat.add_comm]

theorem encode_decode (bytes : List UInt8) : encode bytes.length (decode bytes) = bytes := by
  induction bytes using List.reverseRecOn with
  | nil => rfl
  | append_singleton bytes b ih =>
    have hb := b.toNat_lt
    have hquotient : (decode bytes * 256 + b.toNat) / 256 = decode bytes := by omega
    have hbyte : UInt8.ofNat (decode bytes * 256 + b.toNat) = b := by
      apply UInt8.toNat.inj
      rw [UInt8.toNat_ofNat']
      omega
    rw [List.length_append, List.length_singleton, decode_concat, encode, hquotient, ih, hbyte]

theorem decode_lt (bytes : List UInt8) : decode bytes < 256 ^ bytes.length := by
  have h := decode_encode bytes.length (decode bytes)
  rw [encode_decode] at h
  rw [h]
  exact Nat.mod_lt _ (Nat.pow_pos (by decide))

end BigEndian

namespace Reader

/-- The bytes between the positions of `r` and `r'`, all of which exist, are `bytes`. -/
structure Spans (r : Reader) (bytes : List UInt8) (r' : Reader) : Prop where
  bytes_eq : r'.bytes = r.bytes
  position_eq : r'.position = r.position + bytes.length
  position_le : r'.position ≤ r.bytes.size
  extract_eq : (r.bytes.extract r.position r'.position).toList = bytes

theorem spans_nil_iff {r r' : Reader} : r.Spans [] r' ↔ r' = r ∧ r.position ≤ r.bytes.size := by
  obtain ⟨bytes, position⟩ := r
  obtain ⟨bytes', position'⟩ := r'
  constructor
  · rintro ⟨hbytes, hposition, hle, -⟩
    dsimp only [List.length_nil, Nat.add_zero] at hbytes hposition hle ⊢
    subst hbytes hposition
    exact ⟨rfl, hle⟩
  · rintro ⟨heq, hle⟩
    cases heq
    exact ⟨rfl, rfl, hle, by rw [Array.extract_empty_of_stop_le_start (Nat.le_refl _)]⟩

theorem Spans.append {a b c : Reader} {left right : List UInt8} (hab : a.Spans left b) (hbc : b.Spans right c) :
    a.Spans (left ++ right) c := by
  obtain ⟨hbytes, hposition, hle, hextract⟩ := hab
  obtain ⟨hbytes', hposition', hle', hextract'⟩ := hbc
  rw [hbytes] at hle' hextract'
  refine ⟨hbytes'.trans hbytes, ?_, hle', ?_⟩
  · rw [hposition', hposition, List.length_append, Nat.add_assoc]
  · rw [← hextract, ← hextract', ← Array.toList_append, Array.extract_append_extract, Nat.min_eq_left (by omega),
      Nat.max_eq_right (by omega)]

theorem Spans.cut {a c : Reader} {left right : List UInt8} (h : a.Spans (left ++ right) c) :
    ∃ b, a.Spans left b ∧ b.Spans right c := by
  obtain ⟨hbytes, hposition, hle, hextract⟩ := h
  rw [List.length_append] at hposition
  have hsplit := hextract
  rw [← Nat.min_eq_left (show a.position ≤ a.position + left.length by omega),
    ← Nat.max_eq_right (show a.position + left.length ≤ c.position by omega), ← Array.extract_append_extract,
    Array.toList_append] at hsplit
  obtain ⟨hleft, hright⟩ := List.append_inj hsplit (by
    rw [Array.length_toList, Array.size_extract]
    omega)
  exact ⟨⟨a.bytes, a.position + left.length⟩, ⟨rfl, rfl, by dsimp only; omega, hleft⟩,
    ⟨hbytes, by dsimp only; omega, hle, hright⟩⟩

/-- Bytes that are read one after another are read as one. -/
theorem spans_append_iff {a c : Reader} {left right : List UInt8} :
    a.Spans (left ++ right) c ↔ ∃ b, a.Spans left b ∧ b.Spans right c :=
  ⟨Spans.cut, fun ⟨_, hab, hbc⟩ => hab.append hbc⟩

theorem spans_cons_iff {a c : Reader} {b : UInt8} {right : List UInt8} :
    a.Spans (b :: right) c ↔ ∃ b', a.Spans [b] b' ∧ b'.Spans right c :=
  @spans_append_iff a c [b] right

/-- Bytes span what they hold behind what stands before it. -/
theorem spans_of_toList_eq {bytes : Array UInt8} {before middle after : List UInt8}
    (h : bytes.toList = before ++ middle ++ after) :
    Spans ⟨bytes, before.length⟩ middle ⟨bytes, before.length + middle.length⟩ := by
  refine ⟨rfl, rfl, ?_, ?_⟩
  · dsimp only
    rw [← Array.length_toList, h, List.length_append, List.length_append]
    omega
  · rw [Array.toList_extract, h]
    simp

/-- Bytes are spanned where they stand one by one. -/
theorem spans_iff_getElem? {r r' : Reader} {read : List UInt8} (hread : read ≠ []) :
    r.Spans read r' ↔
      r' = ⟨r.bytes, r.position + read.length⟩ ∧ ∀ k < read.length, r.bytes[r.position + k]? = read[k]? := by
  obtain ⟨bytes, position⟩ := r
  obtain ⟨bytes', position'⟩ := r'
  have hlength := List.length_pos_iff.2 hread
  constructor
  · rintro ⟨hbytes, hposition, hle, hextract⟩
    dsimp only at hbytes hposition hle hextract ⊢
    subst hbytes hposition
    refine ⟨rfl, fun k hk => ?_⟩
    rw [← hextract, Array.getElem?_toList, Array.getElem?_extract, if_pos (by omega)]
  · rintro ⟨heq, hget⟩
    cases heq
    dsimp only at hget
    have hlast := hget (read.length - 1) (by omega)
    rw [List.getElem?_eq_getElem (by omega)] at hlast
    obtain ⟨hlt, -⟩ := Array.getElem?_eq_some_iff.1 hlast
    have hle : position + read.length ≤ bytes.size := by omega
    refine ⟨rfl, rfl, hle, List.ext_getElem? fun k => ?_⟩
    dsimp only
    rw [Array.getElem?_toList, Array.getElem?_extract, Nat.min_eq_left hle]
    split
    · exact hget k (by omega)
    · rw [List.getElem?_eq_none (by omega)]

/-- What was read is read elsewhere too, if the same bytes stand there. -/
theorem Spans.of_agree {r r' : Reader} {read : List UInt8} {bytes : Array UInt8} {position : Nat} (h : r.Spans read r')
    (hread : read ≠ []) (hagree : ∀ k < read.length, bytes[position + k]? = r.bytes[r.position + k]?) :
    Spans ⟨bytes, position⟩ read ⟨bytes, position + read.length⟩ := by
  rw [spans_iff_getElem? hread] at h ⊢
  exact ⟨rfl, fun k hk => (hagree k hk).trans (h.2 k hk)⟩

/-! ### Where addresses end

Bytes have their addresses below a top, and the end of those that are asked for is looked for by an addition that does not go beyond it. -/

/-- The address `n` further on, if there is one below `top`. -/
def address? (top position n : Nat) : Option Nat := if position + n < top then some (position + n) else none

/-- As `take`, where the bytes end has to be an address. -/
def takeChecked (top : Nat) (r : Reader) (n : Nat) : Except CodeError (List UInt8 × Reader) :=
  match (address? top r.position n).filter fun stop => stop ≤ r.bytes.size with
  | some stop => .ok ((r.bytes.extract r.position stop).toList, { r with position := stop })
  | none => .error (.unexpectedEnd (max r.bytes.size r.position))

/-- An address that there is not is not one of the bytes, which all have theirs. -/
theorem takeChecked_eq_take {top : Nat} {r : Reader} (hsize : r.bytes.size < top) (n : Nat) :
    r.takeChecked top n = r.take n := by
  unfold takeChecked take address?
  by_cases hle : r.position + n ≤ r.bytes.size
  · have hlt : r.position + n < top := Nat.lt_of_le_of_lt hle hsize
    simp [hlt, hle, Option.filter]
  · by_cases hlt : r.position + n < top <;> simp [hlt, hle, Option.filter]

/-! ### What each read accepts -/

theorem take_eq_ok_iff {r r' : Reader} {n : Nat} {bytes : List UInt8} :
    r.take n = .ok (bytes, r') ↔ bytes.length = n ∧ r.Spans bytes r' := by
  constructor
  · intro h
    obtain ⟨hle, rfl, rfl⟩ := take_eq_ok h
    have hlength : (r.bytes.extract r.position (r.position + n)).toList.length = n := by
      rw [Array.length_toList, Array.size_extract]
      omega
    exact ⟨hlength, rfl, by rw [hlength], hle, rfl⟩
  · rintro ⟨rfl, hbytes, hposition, hle, hextract⟩
    obtain ⟨bytes', position'⟩ := r'
    dsimp only at hbytes hposition hle hextract
    subst hbytes hposition
    rw [take, if_pos hle, hextract]

theorem number_eq_ok_iff {r r' : Reader} {width n : Nat} :
    r.number width = .ok (n, r') ↔ n < 256 ^ width ∧ r.Spans (BigEndian.encode width n) r' := by
  constructor
  · intro h
    obtain ⟨bytes, htake, rfl⟩ := number_eq_ok h
    obtain ⟨rfl, hspans⟩ := take_eq_ok_iff.1 htake
    rw [BigEndian.encode_decode]
    exact ⟨BigEndian.decode_lt bytes, hspans⟩
  · rintro ⟨hlt, hspans⟩
    have htake := take_eq_ok_iff.2 ⟨BigEndian.length_encode width n, hspans⟩
    refine Except.bind_eq_ok_iff.2 ⟨_, htake, ?_⟩
    dsimp only
    rw [BigEndian.decode_encode, Nat.mod_eq_of_lt hlt]
    rfl

theorem u8_eq_ok_iff {r r' : Reader} {b : UInt8} : r.u8 = .ok (b, r') ↔ r.Spans [b] r' := by
  constructor
  · intro h
    obtain ⟨n, hnumber, rfl⟩ := u8_eq_ok h
    exact (number_eq_ok_iff.1 hnumber).2
  · intro h
    have hencode : BigEndian.encode 1 b.toNat = [b] := by
      rw [BigEndian.encode, BigEndian.encode, UInt8.ofNat_toNat, List.nil_append]
    rw [← hencode] at h
    refine Except.bind_eq_ok_iff.2 ⟨_, number_eq_ok_iff.2 ⟨b.toNat_lt, h⟩, ?_⟩
    dsimp only
    rw [UInt8.ofNat_toNat]
    rfl

theorem u8_eq_ok_iff_getElem? {r r' : Reader} {b : UInt8} :
    r.u8 = .ok (b, r') ↔ r' = ⟨r.bytes, r.position + 1⟩ ∧ r.bytes[r.position]? = some b := by
  rw [u8_eq_ok_iff, spans_iff_getElem? (List.cons_ne_nil b [])]
  simp

theorem u16_eq_ok_iff {r r' : Reader} {n : UInt16} :
    r.u16 = .ok (n, r') ↔ r.Spans (BigEndian.encode 2 n.toNat) r' := by
  constructor
  · intro h
    obtain ⟨m, hnumber, rfl⟩ := u16_eq_ok h
    obtain ⟨hlt, hspans⟩ := number_eq_ok_iff.1 hnumber
    rwa [UInt16.toNat_ofNat_of_lt' hlt]
  · intro h
    refine Except.bind_eq_ok_iff.2 ⟨_, number_eq_ok_iff.2 ⟨n.toNat_lt, h⟩, ?_⟩
    dsimp only
    rw [UInt16.ofNat_toNat]
    rfl

theorem u32_eq_ok_iff {r r' : Reader} {n : UInt32} :
    r.u32 = .ok (n, r') ↔ r.Spans (BigEndian.encode 4 n.toNat) r' := by
  constructor
  · intro h
    obtain ⟨m, hnumber, rfl⟩ := u32_eq_ok h
    obtain ⟨hlt, hspans⟩ := number_eq_ok_iff.1 hnumber
    rwa [UInt32.toNat_ofNat_of_lt' hlt]
  · intro h
    refine Except.bind_eq_ok_iff.2 ⟨_, number_eq_ok_iff.2 ⟨n.toNat_lt, h⟩, ?_⟩
    dsimp only
    rw [UInt32.ofNat_toNat]
    rfl

theorem single_eq_ok_iff {r r' : Reader} {x : Single} :
    r.single = .ok (x, r') ↔ r.Spans (BigEndian.encode 4 x.bits.toNat) r' := by
  rw [← u32_eq_ok_iff]
  constructor
  · exact single_eq_ok
  · intro h
    exact Except.bind_eq_ok_iff.2 ⟨_, h, rfl⟩

end Reader

end RuleMachine
