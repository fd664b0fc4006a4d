import Mathlib.Data.List.Basic
import RuleMachine.Proofs.Reader

/-!
# Reads one after the other

Every read takes as many bytes as its kind has and makes something of them, so what holds of taking bytes holds of all reads: they succeed where their bytes are there, consume these and leave the position behind them, and where the bytes give out they change nothing. A read that looks for the end of its bytes by an addition that must not overflow, and only then moves its own position, does the same. Whatever is read one after the other, refused reads among it, the bytes consumed are those between the first position and the last.
-/

namespace RuleMachine

namespace Reader

/-! ### Calls and answers -/

/-- What a reader can be asked for. -/
inductive Call where
  | u8
  | u16
  | u32
  | single
  | slice (length : Nat)
  deriving DecidableEq

inductive Answer where
  | u8 (n : UInt8)
  | u16 (n : UInt16)
  | u32 (n : UInt32)
  | single (x : Single)
  | slice (bytes : List UInt8)
  deriving DecidableEq

namespace Call

/-- How many bytes have to be there. -/
def length : Call → Nat
  | u8 => 1
  | u16 => 2
  | u32 | single => 4
  | slice length => length

/-- What is made of the bytes. -/
def answer : Call → List UInt8 → Answer
  | u8, bytes => .u8 (UInt8.ofNat (BigEndian.decode bytes))
  | u16, bytes => .u16 (UInt16.ofNat (BigEndian.decode bytes))
  | u32, bytes => .u32 (UInt32.ofNat (BigEndian.decode bytes))
  | single, bytes => .single ⟨UInt32.ofNat (BigEndian.decode bytes)⟩
  | slice _, bytes => .slice bytes

/-- The bytes spell the answer to the call, a number by its most significant byte first. -/
inductive Spells : Call → List UInt8 → Answer → Prop
  | u8 {b : UInt8} : Spells .u8 [b] (.u8 b)
  | u16 {b₁ b₀ : UInt8} {n : UInt16} (hn : n.toNat = 0x100 * b₁.toNat + b₀.toNat) :
    Spells .u16 [b₁, b₀] (.u16 n)
  | u32 {b₃ b₂ b₁ b₀ : UInt8} {n : UInt32}
      (hn : n.toNat = 0x1000000 * b₃.toNat + 0x10000 * b₂.toNat + 0x100 * b₁.toNat + b₀.toNat) :
    Spells .u32 [b₃, b₂, b₁, b₀] (.u32 n)
  | single {b₃ b₂ b₁ b₀ : UInt8} {x : Single}
      (hx : x.bits.toNat = 0x1000000 * b₃.toNat + 0x10000 * b₂.toNat + 0x100 * b₁.toNat + b₀.toNat) :
    Spells .single [b₃, b₂, b₁, b₀] (.single x)
  | slice {bytes : List UInt8} : Spells (.slice bytes.length) bytes (.slice bytes)

/-- Four bytes fill 32 bits. -/
theorem toNat_ofNat_decode_four (b₃ b₂ b₁ b₀ : UInt8) :
    (UInt32.ofNat (BigEndian.decode [b₃, b₂, b₁, b₀])).toNat =
      0x1000000 * b₃.toNat + 0x10000 * b₂.toNat + 0x100 * b₁.toNat + b₀.toNat := by
  have hlt : BigEndian.decode [b₃, b₂, b₁, b₀] < 256 ^ 4 := BigEndian.decode_lt [b₃, b₂, b₁, b₀]
  rw [UInt32.toNat_ofNat_of_lt' hlt]
  simp only [BigEndian.decode, List.foldl_cons, List.foldl_nil]
  omega

theorem spells_answer {call : Call} {bytes : List UInt8} (h : bytes.length = call.length) :
    call.Spells bytes (call.answer bytes) := by
  cases call with
  | slice length =>
    cases h
    exact .slice
  | u8 =>
    obtain ⟨b, rfl⟩ := List.length_eq_one_iff.1 h
    have hbyte : UInt8.ofNat (BigEndian.decode [b]) = b := by
      rw [BigEndian.decode, List.foldl_cons, List.foldl_nil, Nat.zero_mul, Nat.zero_add, UInt8.ofNat_toNat]
    rw [answer, hbyte]
    exact .u8
  | u16 =>
    obtain ⟨b₁, b₀, rfl⟩ := List.length_eq_two.1 h
    have hlt : BigEndian.decode [b₁, b₀] < 256 ^ 2 := BigEndian.decode_lt [b₁, b₀]
    refine .u16 ?_
    rw [UInt16.toNat_ofNat_of_lt' hlt]
    simp only [BigEndian.decode, List.foldl_cons, List.foldl_nil]
    omega
  | u32 =>
    obtain ⟨b₃, b₂, b₁, b₀, rfl⟩ := List.length_eq_four.1 h
    exact .u32 (toNat_ofNat_decode_four b₃ b₂ b₁ b₀)
  | single =>
    obtain ⟨b₃, b₂, b₁, b₀, rfl⟩ := List.length_eq_four.1 h
    exact .single (toNat_ofNat_decode_four b₃ b₂ b₁ b₀)

end Call

/-! ### One read -/

def read (r : Reader) : Call → Except CodeError (Answer × Reader)
  | .u8 => r.u8.map fun p => (.u8 p.1, p.2)
  | .u16 => r.u16.map fun p => (.u16 p.1, p.2)
  | .u32 => r.u32.map fun p => (.u32 p.1, p.2)
  | .single => r.single.map fun p => (.single p.1, p.2)
  | .slice length => (r.take length).map fun p => (.slice p.1, p.2)

/-- Every read takes its bytes and makes something of them. -/
theorem read_eq (r : Reader) (call : Call) :
    r.read call = (r.take call.length).map fun p => (call.answer p.1, p.2) := by
  cases call with
  | slice length => rfl
  | u8 =>
    rw [read, u8, number, Call.length]
    cases r.take 1 <;> rfl
  | u16 =>
    rw [read, u16, number, Call.length]
    cases r.take 2 <;> rfl
  | u32 =>
    rw [read, u32, number, Call.length]
    cases r.take 4 <;> rfl
  | single =>
    rw [read, single, u32, number, Call.length]
    cases r.take 4 <;> rfl

/-- The answer to a call and the reader to go on with, which is the same one where the read is refused. -/
def serve (r : Reader) (call : Call) : Except CodeError Answer × Reader :=
  match r.read call with
  | .ok (answer, r') => (.ok answer, r')
  | .error e => (.error e, r)

section

variable {r r' : Reader} {call : Call}

theorem serve_of_le (h : r.position + call.length ≤ r.bytes.size) :
    r.serve call =
      (.ok (call.answer (r.bytes.extract r.position (r.position + call.length)).toList),
        ⟨r.bytes, r.position + call.length⟩) := by
  rw [serve, read_eq, take, if_pos h]
  rfl

theorem serve_of_not_le (h : ¬r.position + call.length ≤ r.bytes.size) :
    r.serve call = (.error (.unexpectedEnd (max r.bytes.size r.position)), r) := by
  rw [serve, read_eq, take, if_neg h]
  rfl

/-- What there is to say of one call: it is answered where its bytes are there, and these are consumed and spell the answer, or else nothing is consumed and the reader stays where it is. -/
structure Reads (r : Reader) (call : Call) (answer : Except CodeError Answer) (consumed : List UInt8) (r' : Reader) :
    Prop where
  answered_iff : (∃ a, answer = .ok a) ↔ r.position + call.length ≤ r.bytes.size
  of_answered : ∀ a, answer = .ok a →
    r' = ⟨r.bytes, r.position + call.length⟩ ∧ consumed = (r.bytes.extract r.position r'.position).toList ∧
      call.Spells consumed a
  of_refused : ∀ e, answer = .error e →
    r' = r ∧ consumed = [] ∧ e = .unexpectedEnd (max r.bytes.size r.position)

theorem reads_serve (r : Reader) (call : Call) :
    ∃ consumed, r.Reads call (r.serve call).1 consumed (r.serve call).2 := by
  by_cases h : r.position + call.length ≤ r.bytes.size
  · rw [serve_of_le h]
    have hlength : (r.bytes.extract r.position (r.position + call.length)).toList.length = call.length := by
      rw [Array.length_toList, Array.size_extract]
      omega
    refine ⟨(r.bytes.extract r.position (r.position + call.length)).toList, ⟨fun _ => h, fun _ => ⟨_, rfl⟩⟩, ?_,
      nofun⟩
    rintro a ⟨⟩
    exact ⟨rfl, rfl, Call.spells_answer hlength⟩
  · rw [serve_of_not_le h]
    refine ⟨[], ⟨nofun, fun hle => absurd hle h⟩, nofun, ?_⟩
    rintro e ⟨⟩
    exact ⟨rfl, rfl, rfl⟩

/-- A call leads forward, and what it consumes is what lies between. -/
theorem Reads.reaches {answer : Except CodeError Answer} {consumed : List UInt8} (h : r.Reads call answer consumed r') :
    r.Reaches r' ∧ consumed = (r.bytes.extract r.position r'.position).toList := by
  cases answer with
  | ok a =>
    obtain ⟨rfl, hconsumed, -⟩ := h.of_answered a rfl
    have hle := h.answered_iff.1 ⟨a, rfl⟩
    exact ⟨⟨rfl, Nat.le_add_right _ _, Nat.le_trans hle (Nat.le_max_right _ _)⟩, hconsumed⟩
  | error e =>
    obtain ⟨rfl, rfl, -⟩ := h.of_refused e rfl
    exact ⟨Reaches.refl _, by rw [Array.extract_empty_of_stop_le_start (Nat.le_refl _)]⟩

end

/-! ### Reads that move the reader -/

/-- Moves the reader over the next bytes once it is known that they are there. -/
def advance (top n : Nat) : ExceptT CodeError (StateM Reader) (List UInt8) := do
  let r ← get
  let (bytes, r') ← MonadExcept.ofExcept (r.takeChecked top n)
  set r'
  return bytes

def ask (top : Nat) (call : Call) : ExceptT CodeError (StateM Reader) Answer := do
  let bytes ← advance top call.length
  return call.answer bytes

theorem run_advance {top : Nat} {r : Reader} (hsize : r.bytes.size < top) (n : Nat) :
    (advance top n).run.run r =
      match r.take n with
      | .ok (bytes, r') => (.ok bytes, r')
      | .error e => (.error e, r) := by
  have hget : StateT.run (ExceptT.run (get : ExceptT CodeError (StateM Reader) Reader)) r = pure (.ok r, r) := rfl
  rw [advance, ExceptT.run_bind, StateT.run_bind, hget, pure_bind]
  dsimp only
  rw [takeChecked_eq_take hsize]
  cases r.take n <;> rfl

/-- Where the reader is moved, it is moved to where the call leads. -/
theorem run_ask {top : Nat} {r : Reader} (hsize : r.bytes.size < top) (call : Call) :
    (ask top call).run.run r = r.serve call := by
  rw [ask, ExceptT.run_bind, StateT.run_bind, run_advance hsize, serve, read_eq]
  cases r.take call.length <;> rfl

/-! ### Any number of reads -/

/-- The answers to calls that are made one after the other, whether or not they are refused, and the reader after them. -/
def serveAll (r : Reader) : List Call → List (Except CodeError Answer) × Reader
  | [] => ([], r)
  | call :: calls =>
    let (answer, r') := r.serve call
    let (answers, r'') := r'.serveAll calls
    (answer :: answers, r'')

/-- Each call is answered, and the next is made where it led. -/
inductive ReadsAll :
    Reader → List Call → List (Except CodeError Answer) → List (List UInt8) → Reader → Prop
  | nil {r : Reader} : ReadsAll r [] [] [] r
  | cons {r r' r'' : Reader} {call : Call} {calls : List Call} {answer : Except CodeError Answer}
      {answers : List (Except CodeError Answer)} {bytes : List UInt8} {consumed : List (List UInt8)}
      (h : r.Reads call answer bytes r') (hrest : ReadsAll r' calls answers consumed r'') :
    ReadsAll r (call :: calls) (answer :: answers) (bytes :: consumed) r''

section

variable {r r' : Reader} {calls : List Call} {answers : List (Except CodeError Answer)} {consumed : List (List UInt8)}

theorem readsAll_serveAll (r : Reader) (calls : List Call) :
    ∃ consumed, r.ReadsAll calls (r.serveAll calls).1 consumed (r.serveAll calls).2 := by
  induction calls generalizing r with
  | nil => exact ⟨[], .nil⟩
  | cons call calls ih =>
    obtain ⟨bytes, hreads⟩ := reads_serve r call
    obtain ⟨consumed, hrest⟩ := ih (r.serve call).2
    exact ⟨bytes :: consumed, .cons hreads hrest⟩

theorem run_mapM_ask {top : Nat} (hsize : r.bytes.size < top) (calls : List Call) :
    (calls.mapM fun call => (ask top call).run).run r = r.serveAll calls := by
  induction calls generalizing r with
  | nil => rfl
  | cons call calls ih =>
    obtain ⟨bytes, hreads⟩ := reads_serve r call
    have hrest := @ih (r.serve call).2 (by rwa [hreads.reaches.1.bytes_eq])
    rw [List.mapM_cons, StateT.run_bind, run_ask hsize]
    show StateT.run (calls.mapM (fun call => (ask top call).run) >>= fun answers => pure ((r.serve call).1 :: answers))
      (r.serve call).2 = _
    rw [StateT.run_bind, hrest]
    rfl

/-- What is consumed by calls is what lies between the first position and the last. -/
theorem ReadsAll.reaches (h : r.ReadsAll calls answers consumed r') :
    r.Reaches r' ∧ consumed.flatten = (r.bytes.extract r.position r'.position).toList := by
  induction h with
  | nil => exact ⟨Reaches.refl _, by rw [Array.extract_empty_of_stop_le_start (Nat.le_refl _)]; rfl⟩
  | cons h hrest ih =>
    obtain ⟨hreaches, hbytes⟩ := h.reaches
    obtain ⟨hreaches', hconsumed⟩ := ih
    refine ⟨hreaches.trans hreaches', ?_⟩
    rw [List.flatten_cons, hbytes, hconsumed, hreaches.bytes_eq, ← Array.toList_append, Array.extract_append_extract,
      Nat.min_eq_left hreaches.position_le, Nat.max_eq_right hreaches'.position_le]

end

/-- Calls are made from any position, one after the other. The answers and the reader after them are the same whether the reader is moved or handed on, each call is answered exactly where its bytes are there and changes nothing otherwise, and all that is consumed is, in its order, what stands between the first position and the last. -/
theorem reads_exact {top : Nat} {bytes : Array UInt8} (hsize : bytes.size < top) (start : Nat) (calls : List Call) :
    ∃ answers consumed stop,
      serveAll ⟨bytes, start⟩ calls = (answers, ⟨bytes, stop⟩) ∧
        (calls.mapM fun call => (ask top call).run).run ⟨bytes, start⟩ = (answers, ⟨bytes, stop⟩) ∧
        ReadsAll ⟨bytes, start⟩ calls answers consumed ⟨bytes, stop⟩ ∧
        consumed.flatten = (bytes.extract start stop).toList := by
  obtain ⟨consumed, hreads⟩ := readsAll_serveAll ⟨bytes, start⟩ calls
  have hrun := @run_mapM_ask ⟨bytes, start⟩ top hsize calls
  cases hall : serveAll ⟨bytes, start⟩ calls with
  | mk answers r =>
    rw [hall] at hreads hrun
    obtain ⟨hreaches, hconsumed⟩ := hreads.reaches
    obtain ⟨bytes', stop⟩ := r
    have hbytes : bytes' = bytes := hreaches.bytes_eq
    subst hbytes
    exact ⟨answers, consumed, stop, rfl, hrun, hreads, hconsumed⟩

/-- A call that the bytes give out in, one for what there is, one for as many bytes as there are addresses, and one for none. -/
theorem reads_exact_refused :
    (#[0x00, 0x01, 0x02] : Array UInt8).size < 2 ^ 64 ∧
      ∃ consumed,
        ReadsAll ⟨#[0x00, 0x01, 0x02], 1⟩ [.u32, .u16, .slice (2 ^ 64 - 1), .slice 0]
          [.error (.unexpectedEnd 3), .ok (.u16 0x0102), .error (.unexpectedEnd 3), .ok (.slice [])] consumed
          ⟨#[0x00, 0x01, 0x02], 3⟩ ∧
        consumed.flatten = [0x01, 0x02] := by
  have hsize : (#[0x00, 0x01, 0x02] : Array UInt8).size < 2 ^ 64 := by decide
  obtain ⟨answers, consumed, stop, hserve, -, hreads, hconsumed⟩ :=
    reads_exact hsize 1 [.u32, .u16, .slice (2 ^ 64 - 1), .slice 0]
  have heval : serveAll ⟨#[0x00, 0x01, 0x02], 1⟩ [.u32, .u16, .slice (2 ^ 64 - 1), .slice 0] =
      ([.error (.unexpectedEnd 3), .ok (.u16 0x0102), .error (.unexpectedEnd 3), .ok (.slice [])],
        ⟨#[0x00, 0x01, 0x02], 3⟩) := rfl
  rw [heval] at hserve
  cases hserve
  exact ⟨hsize, consumed, hreads, hconsumed⟩

end Reader

end RuleMachine
