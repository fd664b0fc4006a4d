import Mathlib.Order.Monotone.Basic
import RuleMachine.Proofs.Assembly.Layout
import RuleMachine.Proofs.Run.Perform
import RuleMachine.Run.Basic

/-!
# Scripts

A program as its author sees it: a list of instructions and the index at which each kind of run begins. A run of a script keeps an index instead of an offset and decodes nothing. Offsets appear only where they show: a skip is by bytes, so its target is looked up among the starts of the instructions, the clock shows its time where the instruction starts, and a run that leaves the list reports the size of the program.
-/

namespace RuleMachine

open Assembly (Call)

structure Script where
  instructions : List Instruction
  entries : Entry → Nat

namespace Script

def empty : Script := ⟨[], fun _ => 0⟩

def apply (s : Script) : Call → Script
  | .mark entry => { s with entries := Function.update s.entries entry s.instructions.length }
  | call => { s with instructions := s.instructions ++ call.instructions.map Instruction.normal }

/-- The script that the calls spell: what is appended, in normal form, with the last mark of each entry. -/
def ofCalls (calls : List Call) : Script := calls.foldl apply empty

/-- Where the instruction of this index starts in the program. -/
def offset (s : Script) (index : Nat) : Nat :=
  Program.headerSize + ((s.instructions.take index).flatMap Instruction.encoded).length

/-- The size of the program. -/
def size (s : Script) : Nat := s.offset s.instructions.length

/-- The index of the instruction that starts at this offset; the end of the program counts as one. -/
def indexAt? (s : Script) (target : Nat) : Option Nat :=
  (List.range (s.instructions.length + 1)).find? fun index => s.offset index = target

/-- A skip after this index leads to the start of an instruction, to the end of the program or beyond it. -/
def SkipLands (s : Script) (index : Nat) (skip : UInt16) : Prop :=
  s.size < s.offset (index + 1) + skip.toNat ∨
    ∃ target ≤ s.instructions.length, s.offset target = s.offset (index + 1) + skip.toNat

/-- Every skip of every instruction lands so. -/
def SkipsLand (s : Script) : Prop :=
  ∀ index < s.instructions.length, ∀ i ∈ s.instructions[index]?, ∀ skip ∈ i.skips, s.SkipLands index skip

instance (s : Script) (index : Nat) (skip : UInt16) : Decidable (s.SkipLands index skip) :=
  inferInstanceAs (Decidable (_ ∨ _))

instance (s : Script) : Decidable s.SkipsLand :=
  @Nat.decidableBallLT s.instructions.length _ fun index _ =>
    @Option.decidableForallMem _ _ (fun i => List.decidableBAll (s.SkipLands index) i.skips) s.instructions[index]?

/-! ### Offsets -/

variable {s : Script} {i : Instruction} {index : Nat}

theorem offset_succ (h : s.instructions[index]? = some i) : s.offset (index + 1) = s.offset index + i.encoded.length := by
  rw [offset, offset, List.take_add_one, h, List.flatMap_append, List.length_append, Option.toList_some,
    List.flatMap_singleton, Nat.add_assoc]

theorem offset_mono (s : Script) : Monotone s.offset := by
  refine monotone_nat_of_le_succ ?_
  intro index
  rw [offset, offset, List.take_add_one, List.flatMap_append, List.length_append]
  omega

theorem offset_lt_succ (h : index < s.instructions.length) : s.offset index < s.offset (index + 1) := by
  have hlength := List.length_pos_iff.2 (Instruction.encoded_ne_nil s.instructions[index])
  rw [offset_succ (List.getElem?_eq_getElem h)]
  omega

theorem offset_lt {index' : Nat} (hlt : index < index') (hle : index' ≤ s.instructions.length) :
    s.offset index < s.offset index' :=
  (offset_lt_succ (Nat.lt_of_lt_of_le hlt hle)).trans_le (s.offset_mono hlt)

theorem eq_of_offset_eq {index' : Nat} (hle : index ≤ s.instructions.length) (hle' : index' ≤ s.instructions.length)
    (h : s.offset index = s.offset index') : index = index' := by
  rcases Nat.lt_trichotomy index index' with hlt | heq | hlt
  · exact absurd h (Nat.ne_of_lt (offset_lt hlt hle'))
  · exact heq
  · exact absurd h (Nat.ne_of_gt (offset_lt hlt hle))

theorem indexAt?_eq_some_iff {target : Nat} :
    s.indexAt? target = some index ↔ index ≤ s.instructions.length ∧ s.offset index = target := by
  constructor
  · intro h
    exact ⟨Nat.le_of_lt_succ (List.mem_range.1 (List.mem_of_find?_eq_some h)), by simpa using List.find?_some h⟩
  · intro h
    obtain ⟨hle, rfl⟩ := h
    cases hfind : s.indexAt? (s.offset index) with
    | none =>
      have hnone := List.find?_eq_none.1 hfind index (List.mem_range.2 (Nat.lt_succ_of_le hle))
      simp at hnone
    | some index' =>
      have hmem := List.mem_range.1 (List.mem_of_find?_eq_some hfind)
      have heq := List.find?_some hfind
      rw [eq_of_offset_eq (Nat.le_of_lt_succ hmem) hle (by simpa using heq)]

theorem indexAt?_eq_none {target : Nat} (h : s.size < target) : s.indexAt? target = none := by
  refine List.find?_eq_none.2 ?_
  intro index hindex
  have hmono := s.offset_mono (Nat.le_of_lt_succ (List.mem_range.1 hindex))
  rw [size] at h
  simp only [decide_eq_true_eq]
  omega

end Script

/-! ### Runs of a script -/

/-- A run of a script between two instructions. -/
structure Cue (σ : Type) where
  index : Nat
  context : Context
  sink : σ

/-- What a run comes to: its result, the state and the sink. -/
structure Verdict (σ : Type) where
  result : Except Fault Outcome
  state : RuleState
  sink : σ

/-- The report without the log. -/
def Report.verdict {σ : Type} (r : Report σ) : Verdict σ := ⟨r.result, r.state, r.sink⟩

def Verdict.ofEnding {σ : Type} (state : RuleState) (now : Moment) (sink : σ) : Except Fault Ending → Verdict σ
  | .error f => ⟨.error f, state, sink⟩
  | .ok .stay => ⟨.ok (.stayed state.current), state, sink⟩
  | .ok (.change target) => ⟨.ok (.changed state.current target), state.enter target now, sink⟩

namespace Script

variable {σ : Type}

/-- Goes on at the instruction that starts at the target. -/
def goTo (s : Script) (cue : Cue σ) (target : Nat) : Cue σ × Option (Except Fault Ending) :=
  match s.indexAt? target with
  | some index => ({ cue with index }, none)
  | none => (cue, some (.error (.pcOutOfRange target s.size)))

variable [Sink σ]

def turn (s : Script) (around : Surroundings) (cue : Cue σ) : Cue σ × Option (Except Fault Ending) :=
  match s.instructions[cue.index]? with
  | none => (cue, some (.error (.malformed (.unexpectedEnd s.size))))
  | some i =>
    match { cue.context with opcode := i.opcode, pc := s.offset cue.index }.perform around i with
    | .error f => (cue, some (.error f))
    | .ok (context, .advance) => ({ cue with index := cue.index + 1, context }, none)
    | .ok (context, .skip bytes) => s.goTo { cue with context } (s.offset (cue.index + 1) + bytes.toNat)
    | .ok (context, .write endpoint v) =>
      let reply := Sink.write cue.sink endpoint v
      match context.push (.u8 reply.code) with
      | .error f => ({ cue with sink := reply.sink }, some (.error f))
      | .ok context => (⟨cue.index + 1, context, reply.sink⟩, none)
    | .ok (_, .stay) => (cue, some (.ok .stay))
    | .ok (_, .change state) => (cue, some (.ok (.change state)))

theorem turn_advances {s : Script} {around : Surroundings} {cue cue' : Cue σ} (h : s.turn around cue = (cue', none)) :
    cue.index < cue'.index ∧ cue'.index ≤ s.instructions.length := by
  unfold turn at h
  split at h
  · cases h
  · next i hi =>
    obtain ⟨hlt, -⟩ := List.getElem?_eq_some_iff.1 hi
    split at h
    · cases h
    · cases h
      exact ⟨Nat.lt_succ_self _, hlt⟩
    · unfold goTo at h
      split at h
      · next index hindex =>
        cases h
        obtain ⟨hle, htarget⟩ := indexAt?_eq_some_iff.1 hindex
        refine ⟨Nat.lt_of_not_le ?_, hle⟩
        intro hback
        have hmono := s.offset_mono hback
        have hroom := offset_lt_succ hlt
        dsimp only at hmono
        omega
      · cases h
    · dsimp only at h
      split at h
      · cases h
      · cases h
        exact ⟨Nat.lt_succ_self _, hlt⟩
    · cases h
    · cases h

def finish (s : Script) (around : Surroundings) (cue : Cue σ) : Cue σ × Except Fault Ending :=
  match _hturn : s.turn around cue with
  | (cue', some ending) => (cue', ending)
  | (cue', none) => finish s around cue'
termination_by s.instructions.length - cue.index
decreasing_by
  have := turn_advances _hturn
  omega

/-- Runs the script once, from the entry that the trigger asks for. -/
def execute (s : Script) (state : RuleState) (trigger : Option Trigger) (sink : σ) (clock : Clock) (config : Config) :
    Verdict σ :=
  let (cue, ending) := s.finish ⟨state, clock⟩
    ⟨s.entries (.ofTrigger trigger), .start trigger config.effectiveStackLimit, sink⟩
  .ofEnding state (clock.reading (s.offset cue.index)) cue.sink ending

/-- The writes that the run makes, in the order in which it makes them. -/
def writes (s : Script) (state : RuleState) (trigger : Option Trigger) (sink : σ) (clock : Clock) (config : Config) :
    List Write :=
  (s.execute state trigger (⟨sink, []⟩ : Recorded σ) clock config).sink.writes

end Script

end RuleMachine
