import RuleMachine.Proofs.Run.Record

/-!
# One pass through the code

A run goes through the code once and forwards: an instruction is left at or behind its end, so no byte is part of two of them and there are no more of them than bytes from the entry on. Everything here comes from one fact about a turn, `placed_of_turn`, and is carried along the run by induction.
-/

namespace RuleMachine

variable {σ : Type}

/-- An instruction at the place where a run executes it. -/
structure Placed where
  pc : Nat
  instruction : Instruction
  length : Nat
  deriving DecidableEq

def Placed.stop (a : Placed) : Nat := a.pc + a.length

/-- The byte at this offset is part of the instruction. -/
def Placed.Covers (a : Placed) (offset : Nat) : Prop := a.pc ≤ offset ∧ offset < a.stop

namespace Progress

variable {p : Program} {s : Progress σ} {a : Placed}

/-- The instruction that the turn from here executes, if there is one to decode. -/
def placed? (p : Program) (s : Progress σ) : Option Placed :=
  match Instruction.decode p.bytes s.context.pc with
  | .ok (i, length) => some ⟨s.context.pc, i, length⟩
  | .error _ => none

/-- The instructions that these turns execute. -/
def placed (p : Program) (taken : List (Progress σ)) : List Placed := taken.filterMap (placed? p)

@[simp] theorem placed_nil : placed p ([] : List (Progress σ)) = [] := rfl

theorem placed_cons_of_none {rest : List (Progress σ)} (h : s.placed? p = none) :
    placed p (s :: rest) = placed p rest := List.filterMap_cons_none h

theorem placed_cons_of_some {rest : List (Progress σ)} (h : s.placed? p = some a) :
    placed p (s :: rest) = a :: placed p rest := List.filterMap_cons_some h

theorem placed?_eq_some_iff :
    s.placed? p = some a ↔
      s.context.pc = a.pc ∧ Instruction.decode p.bytes a.pc = .ok (a.instruction, a.length) := by
  obtain ⟨pc, instruction, length⟩ := a
  unfold placed?
  split
  · next i n hdecode =>
    constructor
    · intro h
      cases h
      exact ⟨rfl, hdecode⟩
    · intro h
      obtain ⟨hpc, h⟩ := h
      cases hpc
      cases hdecode.symm.trans h
      rfl
  · next e hdecode =>
    constructor
    · intro h
      cases h
    · intro h
      obtain ⟨hpc, h⟩ := h
      cases hpc
      cases hdecode.symm.trans h

theorem stop_of_placed (h : s.placed? p = some a) : a.pc < a.stop ∧ a.stop ≤ p.size := by
  obtain ⟨hlength, hstop⟩ := Instruction.decode_bounds (placed?_eq_some_iff.1 h).2
  exact ⟨Nat.lt_add_of_pos_right hlength, hstop⟩

variable [Sink σ] {around : Surroundings}

/-- A turn that leaves the run going on has executed an instruction, and goes on behind it. -/
theorem placed_of_turn {s' : Progress σ} (h : s.turn p around = (s', none)) :
    ∃ a, s.placed? p = some a ∧ a.stop ≤ s'.context.pc := by
  rw [turn_eq_iff] at h
  cases h with
  | moved hdecode hperform hnext hle =>
    exact ⟨⟨_, _, _⟩, placed?_eq_some_iff.2 ⟨rfl, hdecode⟩, Nat.le_add_right _ _⟩
  | wrote hdecode hperform hpush => exact ⟨⟨_, _, _⟩, placed?_eq_some_iff.2 ⟨rfl, hdecode⟩, Nat.le_refl _⟩

theorem placed_of_write {w : Write} (h : s.write? p around = some w) : ∃ a, s.placed? p = some a := by
  unfold write? at h
  split at h
  · cases h
  · next hdecode => exact ⟨⟨_, _, _⟩, placed?_eq_some_iff.2 ⟨rfl, hdecode⟩⟩

/-! ### Along a run -/

variable {taken : List (Progress σ)} {outcome : Progress σ × Except Fault Ending}

theorem Runs.pc_le_of_mem (h : s.Runs p around taken outcome) : ∀ t ∈ taken, s.context.pc ≤ t.context.pc := by
  induction h with
  | last hturn => simp
  | next hturn _ ih =>
    have hahead := turn_advances hturn
    intro t ht
    rcases List.mem_cons.1 ht with rfl | ht
    · exact Nat.le_refl _
    · have hrest := ih t ht
      omega

/-- The turns of a run lie in the code one behind the other. -/
theorem Runs.pairwise_stop_le (h : s.Runs p around taken outcome) :
    taken.Pairwise fun t u => ∃ a, t.placed? p = some a ∧ a.stop ≤ u.context.pc := by
  induction h with
  | last hturn => exact List.pairwise_singleton _ _
  | next hturn hrest ih =>
    obtain ⟨a, hplaced, hstop⟩ := placed_of_turn hturn
    refine List.pairwise_cons.2 ⟨?_, ih⟩
    intro u hu
    exact ⟨a, hplaced, Nat.le_trans hstop (hrest.pc_le_of_mem u hu)⟩

/-- The instructions that a run executes lie in the code one behind the other. -/
theorem Runs.pairwise_placed (h : s.Runs p around taken outcome) :
    (placed p taken).Pairwise fun a b => a.pc < a.stop ∧ a.stop ≤ b.pc := by
  rw [placed, List.pairwise_filterMap]
  refine h.pairwise_stop_le.imp ?_
  intro t u hbehind a ha b hb
  obtain ⟨a', ha', hstop⟩ := hbehind
  cases ha.symm.trans ha'
  have hpc := (placed?_eq_some_iff.1 hb).1
  exact ⟨(stop_of_placed ha).1, by omega⟩

/-- Every turn executes an instruction, except that the last may find none. -/
theorem Runs.executed_pcs (h : s.Runs p around taken outcome) :
    (placed p taken).map Placed.pc = taken.map (fun t => t.context.pc) ∨
      (placed p taken).map Placed.pc = (taken.map fun t => t.context.pc).dropLast := by
  induction h with
  | @last s s' ending hturn =>
    cases hplaced : s.placed? p with
    | none => exact .inr (by simp [placed_cons_of_none hplaced])
    | some a =>
      have hpc := (placed?_eq_some_iff.1 hplaced).1
      exact .inl (by simp [placed_cons_of_some hplaced, hpc])
  | @next s s' rest outcome hturn hrest ih =>
    obtain ⟨a, hplaced, -⟩ := placed_of_turn hturn
    have hpc := (placed?_eq_some_iff.1 hplaced).1
    have hne : rest.map (fun t => t.context.pc) ≠ [] := by
      intro hnil
      have hhead := hrest.head?_eq
      rw [List.map_eq_nil_iff.1 hnil] at hhead
      cases hhead
    rw [placed_cons_of_some hplaced, List.map_cons, List.map_cons, List.dropLast_cons_of_ne_nil hne, hpc]
    exact ih.imp (congrArg _) (congrArg _)

theorem Runs.length_executed_le (h : s.Runs p around taken outcome) :
    (placed p taken).length ≤ p.size - s.context.pc := by
  induction h with
  | @last s s' ending hturn =>
    cases hplaced : s.placed? p with
    | none => simp [placed_cons_of_none hplaced]
    | some a =>
      have hstop := stop_of_placed hplaced
      have hpc := (placed?_eq_some_iff.1 hplaced).1
      rw [placed_cons_of_some hplaced, placed_nil, List.length_singleton]
      omega
  | next hturn hrest ih =>
    obtain ⟨a, hplaced, hbehind⟩ := placed_of_turn hturn
    have hahead := turn_advances hturn
    rw [placed_cons_of_some hplaced, List.length_cons]
    omega

end Progress

namespace Program

/-- What it is for the turns of a run to go through the code once and forwards from the entry. -/
structure OnePass (p : Program) (entry : Nat) (taken : List (Progress σ)) : Prop where
  entered : (taken.map fun s => s.context.pc).head? = if entry ≤ p.size then some entry else none
  increasing : (taken.map fun s => s.context.pc).Pairwise (· < ·)
  executed_pcs : (Progress.placed p taken).map Placed.pc = taken.map (fun s => s.context.pc) ∨
    (Progress.placed p taken).map Placed.pc = (taken.map fun s => s.context.pc).dropLast
  placed : ∀ a ∈ Progress.placed p taken,
    Instruction.decode p.bytes a.pc = .ok (a.instruction, a.length) ∧ a.stop ≤ p.size
  disjoint : (Progress.placed p taken).Pairwise fun a b =>
    ∀ offset, ¬ (a.Covers offset ∧ b.Covers offset)
  count : (Progress.placed p taken).length ≤ p.size - entry

variable {p : Program}

theorem onePass_nil {entry : Nat} (h : p.size < entry) : p.OnePass entry ([] : List (Progress σ)) where
  entered := by rw [if_neg (Nat.not_le.2 h)]; rfl
  increasing := List.Pairwise.nil
  executed_pcs := .inl rfl
  placed := by simp
  disjoint := List.Pairwise.nil
  count := Nat.zero_le _

variable [Sink σ] {state : RuleState} {trigger : Option Trigger} {sink : σ} {clock : Clock} {config : Config}

theorem onePass_of_runs {around : Surroundings} {s : Progress σ} {taken : List (Progress σ)}
    {outcome : Progress σ × Except Fault Ending} (h : s.Runs p around taken outcome) (hle : s.context.pc ≤ p.size) :
    p.OnePass s.context.pc taken where
  entered := by rw [List.head?_map, h.head?_eq, if_pos hle, Option.map_some]
  increasing := by
    rw [List.pairwise_map]
    refine h.pairwise_stop_le.imp ?_
    intro t u hbehind
    obtain ⟨a, hplaced, hstop⟩ := hbehind
    have hpc := (Progress.placed?_eq_some_iff.1 hplaced).1
    have hlength := (Progress.stop_of_placed hplaced).1
    omega
  executed_pcs := h.executed_pcs
  placed := by
    intro a ha
    obtain ⟨t, -, hplaced⟩ := List.mem_filterMap.1 ha
    exact ⟨(Progress.placed?_eq_some_iff.1 hplaced).2, (Progress.stop_of_placed hplaced).2⟩
  disjoint := by
    refine h.pairwise_placed.imp ?_
    intro a b hbehind offset hcovers
    have hbefore := hcovers.1.2
    have hafter := hcovers.2.1
    omega
  count := h.length_executed_le

/-- The instructions that the run executes, in the order in which it executes them. -/
def executed (p : Program) (state : RuleState) (trigger : Option Trigger) (sink : σ) (clock : Clock) (config : Config) :
    List Placed :=
  Progress.placed p (p.turns state trigger sink clock config)

/-- A write takes an instruction. -/
theorem length_writes_le :
    (p.writes state trigger sink clock config).length ≤ (p.executed state trigger sink clock config).length := by
  rw [writes_eq, executed, Progress.placed, List.length_filterMap_eq_countP, List.length_filterMap_eq_countP]
  refine List.countP_mono_left ?_
  intro s _ hs
  obtain ⟨w, hwrite⟩ := Option.isSome_iff_exists.1 hs
  exact Option.isSome_iff_exists.2 (Progress.placed_of_write hwrite)

/-- The turns that a run takes are the only ones it can take, and there are none if the header names no entry. Otherwise they go once over the code from the entry on, each behind the instruction of the one before, and no more is written than is executed. -/
theorem execute_one_pass (p : Program) (state : RuleState) (trigger : Option Trigger) (sink : σ) (clock : Clock)
    (config : Config) :
    p.Runs state trigger sink clock config (p.turns state trigger sink clock config)
        (p.execute state trigger sink clock config) ∧
      (∀ e, p.entryOffset (.ofTrigger trigger) = .error e → p.turns state trigger sink clock config = []) ∧
      (∀ offset, p.entryOffset (.ofTrigger trigger) = .ok offset →
        p.OnePass offset.toNat (p.turns state trigger sink clock config)) ∧
      (p.writes state trigger sink clock config).length ≤ (p.executed state trigger sink clock config).length := by
  refine ⟨runs_execute, ?_, ?_, length_writes_le⟩
  · intro e he
    exact turns_of_refused (Prod.ext rfl (entered_of_error he))
  · intro offset hoffset
    by_cases hle : offset.toNat ≤ p.size
    · obtain ⟨s, henter, hcontext⟩ := @entered_of_le σ p state trigger sink config offset hoffset hle
      have hpc := congrArg Context.pc hcontext
      dsimp only at hpc
      rw [turns_of_begun henter, ← hpc]
      exact onePass_of_runs (Progress.runs_finish s) (hpc ▸ hle)
    · rw [turns_of_refused (Prod.ext rfl (entered_of_lt hoffset (Nat.not_le.1 hle)))]
      exact onePass_nil (Nat.not_le.1 hle)

end Program

end RuleMachine
