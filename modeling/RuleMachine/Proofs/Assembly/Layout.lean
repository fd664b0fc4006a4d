import Mathlib.Logic.Function.Basic
import RuleMachine.Proofs.Instruction.RoundTrip

/-!
# What is assembled

An assembly is asked for one thing after another. As long as nothing fails, its bytes are those of a layout: the two entries, each where it was marked last, and behind the header what every call appended, in order. A failure is never forgotten, so an assembly that is sound in the end was laid out so after every call.
-/

namespace RuleMachine

namespace Assembly

/-- One thing that is asked of an assembly. -/
inductive Call where
  | mark (entry : Entry)
  | append (i : Instruction)
  | appendAll (instructions : List Instruction)
  | switch (width : CaseWidth) (cases : List (UInt32 × UInt16))
  | compareBlock (first : UInt8) (literal : List UInt8)
  | raw (bytes : List UInt8)

def apply (a : Assembly) : Call → Assembly
  | .mark entry => a.mark entry
  | .append i => a.append i
  | .appendAll instructions => a.appendAll instructions
  | .switch width cases => a.switch width cases
  | .compareBlock first literal => a.compareBlock first literal
  | .raw bytes => a.raw bytes

/-- What has been assembled after these calls. -/
def assemble (calls : List Call) : Assembly := calls.foldl apply start

namespace Call

/-- The instructions that a call appends. -/
def instructions : Call → List Instruction
  | mark _ | raw _ => []
  | append i => [i]
  | appendAll instructions => instructions
  | switch width cases => [.switch (.ofCases width cases)]
  | compareBlock first literal => [comparison first literal]

/-- The bytes that a call appends. -/
def bytes : Call → List UInt8
  | raw bytes => bytes
  | call => call.instructions.flatMap Instruction.encoded

end Call

/-- The call can be met by an assembly of this size. -/
def Call.Fits (size : Nat) : Call → Prop
  | mark _ => size < 65536
  | call => ∀ i ∈ call.instructions, i.operandError? = none

theorem Call.Fits.instructions {size : Nat} {call : Call} (h : call.Fits size) :
    ∀ i ∈ call.instructions, i.operandError? = none := by
  cases call
  case mark entry => simp [Call.instructions]
  all_goals exact h

/-- Where the entries of a program are and what stands behind its header. -/
structure Layout where
  entries : Entry → Nat
  body : List UInt8

namespace Layout

def start : Layout := ⟨fun _ => Program.headerSize, []⟩

def size (l : Layout) : Nat := Program.headerSize + l.body.length

def apply (l : Layout) : Call → Layout
  | .mark entry => { l with entries := Function.update l.entries entry l.size }
  | call => { l with body := l.body ++ call.bytes }

/-- The bytes of the program. -/
def bytes (l : Layout) : List UInt8 :=
  Program.supportedVersion :: (BigEndian.encode 2 (l.entries .packet) ++ BigEndian.encode 2 (l.entries .periodic) ++ l.body)

theorem length_bytes (l : Layout) : l.bytes.length = l.size := by
  simp only [bytes, size, Program.headerSize, List.length_cons, List.length_append, BigEndian.length_encode]
  omega

theorem body_apply (l : Layout) (call : Call) : (l.apply call).body = l.body ++ call.bytes := by
  cases call with
  | mark entry => exact (List.append_nil _).symm
  | _ => rfl

theorem body_foldl (l : Layout) (calls : List Call) :
    (calls.foldl apply l).body = l.body ++ calls.flatMap Call.bytes := by
  induction calls generalizing l with
  | nil => exact (List.append_nil _).symm
  | cons call calls ih => rw [List.foldl_cons, ih, body_apply, List.flatMap_cons, List.append_assoc]

end Layout

/-! ### What fails -/

variable {a : Assembly} {l : Layout}

theorem mark_error_eq_none_iff {entry : Entry} : (a.mark entry).error = none ↔ a.error = none ∧ a.offset < 65536 := by
  unfold mark
  cases herror : a.error with
  | some e => simp [herror]
  | none => by_cases hlt : a.offset < 65536 <;> simp [hlt]

theorem append_error_eq_none_iff {i : Instruction} :
    (a.append i).error = none ↔ a.error = none ∧ i.operandError? = none := by
  unfold append Instruction.encode
  cases herror : a.error with
  | some e => simp [herror]
  | none => cases i.operandError? <;> simp

theorem appendAll_error_eq_none_iff {instructions : List Instruction} :
    (a.appendAll instructions).error = none ↔ a.error = none ∧ ∀ i ∈ instructions, i.operandError? = none := by
  induction instructions generalizing a with
  | nil => simp [appendAll]
  | cons i instructions ih =>
    rw [appendAll, List.foldl_cons, ← appendAll, ih, append_error_eq_none_iff, List.forall_mem_cons, and_assoc]

/-- A call fails where it does not fit, and after a failure. -/
theorem apply_error_eq_none_iff {call : Call} :
    (a.apply call).error = none ↔ a.error = none ∧ call.Fits a.offset := by
  cases call with
  | mark entry => exact mark_error_eq_none_iff
  | append i => exact @appendAll_error_eq_none_iff a [i]
  | appendAll instructions => exact appendAll_error_eq_none_iff
  | switch width cases => exact @appendAll_error_eq_none_iff a [.switch (.ofCases width cases)]
  | compareBlock first literal => exact @appendAll_error_eq_none_iff a [comparison first literal]
  | raw bytes => simp [apply, Call.Fits, Call.instructions, raw]

/-! ### One call -/

/-- Nothing has failed, and the bytes are those of the layout. -/
structure LaidOut (a : Assembly) (l : Layout) : Prop where
  error_eq : a.error = none
  code_eq : a.code.toList = l.bytes
  entries_lt : ∀ entry, l.entries entry < 65536

theorem laidOut_start : start.LaidOut .start := ⟨rfl, rfl, fun _ => (by decide : 5 < 65536)⟩

theorem LaidOut.offset_eq (h : a.LaidOut l) : a.offset = l.size := by
  rw [offset, ← Array.length_toList, h.code_eq, l.length_bytes]

theorem LaidOut.mark {entry : Entry} (h : a.LaidOut l) (hlt : l.size < 65536) :
    (a.mark entry).LaidOut (l.apply (.mark entry)) := by
  have hcode := h.code_eq
  rw [Assembly.mark, h.error_eq, if_neg (by simp), h.offset_eq, if_pos hlt]
  refine ⟨rfl, ?_, ?_⟩
  · simp only [Array.toList_setIfInBounds, hcode, Layout.bytes, Layout.apply]
    cases entry <;> simp [BigEndian.encode, Entry.headerOffset, Function.update]
  · intro e
    simp only [Layout.apply]
    by_cases he : e = entry
    · rw [he, Function.update_self]
      exact hlt
    · rw [Function.update_of_ne he]
      exact h.entries_lt e

theorem LaidOut.append_bytes {bytes : List UInt8} (h : a.LaidOut l) :
    LaidOut { a with code := a.code ++ bytes } { l with body := l.body ++ bytes } := by
  refine ⟨h.error_eq, ?_, h.entries_lt⟩
  simp only [Array.toList_appendList, h.code_eq, Layout.bytes, List.cons_append, List.append_assoc]

theorem LaidOut.append {i : Instruction} (h : a.LaidOut l) (hi : i.operandError? = none) :
    (a.append i).LaidOut { l with body := l.body ++ i.encoded } := by
  have hcode := @LaidOut.append_bytes a l i.encoded h
  rw [h.error_eq] at hcode
  rw [Assembly.append, h.error_eq, if_neg (by simp), Instruction.encode_eq_ok_iff.2 ⟨hi, rfl⟩]
  exact hcode

theorem LaidOut.appendAll {instructions : List Instruction} (h : a.LaidOut l)
    (hinstructions : ∀ i ∈ instructions, i.operandError? = none) :
    (a.appendAll instructions).LaidOut { l with body := l.body ++ instructions.flatMap Instruction.encoded } := by
  induction instructions generalizing a l with
  | nil => simpa [Assembly.appendAll] using h
  | cons i instructions ih =>
    obtain ⟨hi, hinstructions⟩ := List.forall_mem_cons.1 hinstructions
    rw [List.flatMap_cons, ← List.append_assoc]
    exact ih (h.append hi) hinstructions

theorem LaidOut.apply {call : Call} (h : a.LaidOut l) (hfits : call.Fits l.size) :
    (a.apply call).LaidOut (l.apply call) := by
  cases call with
  | mark entry => exact h.mark hfits
  | append i => exact h.appendAll hfits
  | appendAll instructions => exact h.appendAll hfits
  | switch width cases => exact h.appendAll hfits
  | compareBlock first literal => exact h.appendAll hfits
  | raw bytes => exact h.append_bytes

/-! ### All calls -/

theorem error_eq_none_of_foldl {calls : List Call} (h : (calls.foldl apply a).error = none) : a.error = none := by
  induction calls generalizing a with
  | nil => exact h
  | cons call calls ih => exact (apply_error_eq_none_iff.1 (ih h)).1

theorem assemble_append (before after : List Call) :
    assemble (before ++ after) = after.foldl apply (assemble before) := List.foldl_append

/-- What is sound after some calls was sound before the last of them. -/
theorem error_eq_none_of_append {before after : List Call} (h : (assemble (before ++ after)).error = none) :
    (assemble before).error = none := by
  rw [assemble_append] at h
  exact error_eq_none_of_foldl h

/-- What is sound after some calls was laid out by each of them, and what they append has encodings. -/
theorem LaidOut.foldl {calls : List Call} (h : a.LaidOut l) (herror : (calls.foldl Assembly.apply a).error = none) :
    (calls.foldl Assembly.apply a).LaidOut (calls.foldl Layout.apply l) ∧
      ∀ i ∈ calls.flatMap Call.instructions, i.operandError? = none := by
  induction calls generalizing a l with
  | nil => exact ⟨h, by simp⟩
  | cons call calls ih =>
    have hfits := (apply_error_eq_none_iff.1 (error_eq_none_of_foldl herror)).2
    rw [h.offset_eq] at hfits
    obtain ⟨hlaid, hinstructions⟩ := ih (h.apply hfits) herror
    refine ⟨hlaid, ?_⟩
    rw [List.flatMap_cons]
    exact List.forall_mem_append.2 ⟨hfits.instructions, hinstructions⟩

/-- The layout that the calls ask for. -/
def layout (calls : List Call) : Layout := calls.foldl Layout.apply .start

theorem layout_concat (calls : List Call) (call : Call) :
    layout (calls ++ [call]) = (layout calls).apply call := List.foldl_append

theorem laidOut_assemble {calls : List Call} (h : (assemble calls).error = none) :
    (assemble calls).LaidOut (layout calls) := (laidOut_start.foldl h).1

theorem finish_eq_ok_iff {p : Program} : a.finish = .ok p ↔ a.error = none ∧ a.code = p.bytes := by
  unfold finish Program.ofBytes
  cases a.error with
  | some e => simp
  | none =>
    by_cases hle : a.code.size ≤ 65536
    · obtain ⟨bytes, hsize⟩ := p
      simp [hle]
    · have hlarge : a.code ≠ p.bytes := fun heq => hle (heq ▸ p.size_le)
      simp [hle, hlarge]

theorem laidOut_of_finish {calls : List Call} {p : Program} (h : (assemble calls).finish = .ok p) :
    p.bytes.toList = (layout calls).bytes ∧ (∀ entry, (layout calls).entries entry < 65536) ∧
      ∀ i ∈ calls.flatMap Call.instructions, i.operandError? = none := by
  obtain ⟨herror, hcode⟩ := finish_eq_ok_iff.1 h
  obtain ⟨hlaid, hinstructions⟩ := laidOut_start.foldl herror
  exact ⟨hcode ▸ hlaid.code_eq, hlaid.entries_lt, hinstructions⟩

end Assembly

end RuleMachine
