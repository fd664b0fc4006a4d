import RuleMachine.Proofs.Run.Depth

/-!
# How a run ends

A run succeeds exactly if it takes its last turn at an instruction that stays, or at one that changes the state with a word on top of the stack; every other last turn is a fault, and so is not to reach the entry. What the run reports and the state it leaves behind are functions of that alone and of the time there, whatever was written, stored or pushed before.
-/

namespace RuleMachine

/-- What is reported of a run from a state that ends so. -/
def Ending.outcome (current : UInt32) : Ending → Outcome
  | stay => .stayed current
  | change target => .changed current target

/-- The state that a run leaves behind which ends so at this time, if it comes to an ending. -/
def Ending.leaves (state : RuleState) (now : Moment) : Option Ending → RuleState
  | some (change target) => state.enter target now
  | _ => state

def Next.ending? : Next → Option Ending
  | stay => some .stay
  | change target => some (.change target)
  | _ => none

theorem Next.ending?_of_passed {next : Next} {bytes : Nat} (h : next.passed? = some bytes) : next.ending? = none := by
  cases next <;> first | rfl | cases h

variable {σ : Type} {p : Program} {around : Surroundings}

namespace Progress

variable {s s' : Progress σ}

/-- The ending that the instruction here brings about, if it does. -/
def ending? (p : Program) (s : Progress σ) : Option Ending :=
  match Instruction.decode p.bytes s.context.pc with
  | .ok (.stay, _) => some .stay
  | .ok (.changeState, _) => s.context.stack.values.head?.bind fun v => v.word?.map .change
  | _ => none

theorem ending?_of_undecoded {e : CodeError} (hdecode : Instruction.decode p.bytes s.context.pc = .error e) :
    s.ending? p = none := by
  rw [ending?, hdecode]

theorem ending?_of_performed {i : Instruction} {length : Nat} {c : Context} {next : Next}
    (hdecode : Instruction.decode p.bytes s.context.pc = .ok (i, length))
    (hperform : (s.begin i).context.perform around i = .ok (c, next)) : s.ending? p = next.ending? := by
  have hallows := Context.allows_of_perform hperform
  unfold ending?
  rw [hdecode]
  cases i
  case stay =>
    cases hperform
    rfl
  case changeState =>
    obtain ⟨v, rest, target, hvalues, hword, -, rfl⟩ := Context.perform_changeState_eq_ok_iff.1 hperform
    have hvalues : s.context.stack.values = v :: rest := hvalues
    simp [hvalues, hword, Next.ending?]
  all_goals cases next <;> first | rfl | cases hallows

theorem ending?_of_failed {i : Instruction} {length : Nat} {f : Fault}
    (hdecode : Instruction.decode p.bytes s.context.pc = .ok (i, length))
    (hperform : (s.begin i).context.perform around i = .error f) : s.ending? p = none := by
  unfold ending?
  rw [hdecode]
  cases i
  case stay => cases hperform
  case changeState =>
    rcases hvalues : s.context.stack.values with _ | ⟨v, rest⟩
    · rfl
    · cases hword : v.word? with
      | none => simp [hword]
      | some target =>
        cases hperform.symm.trans
          (Context.perform_changeState_eq_ok_iff.2 ⟨v, rest, target, hvalues, hword, rfl, rfl⟩)
  all_goals rfl

variable [Sink σ]

theorem ending?_of_turn {r : Except Fault Ending} (h : s.turn p around = (s', some r)) :
    s.ending? p = r.toOption := by
  generalize hending : some r = ending at h
  rw [turn_eq_iff] at h
  cases h with
  | undecoded hdecode => cases hending; exact ending?_of_undecoded hdecode
  | failed hdecode hperform => cases hending; exact ending?_of_failed hdecode hperform
  | moved hdecode hperform hnext hle => cases hending
  | left hdecode hperform hnext hlt =>
    cases hending
    exact (ending?_of_performed hdecode hperform).trans (Next.ending?_of_passed hnext)
  | wrote hdecode hperform hpush => cases hending
  | unanswered hdecode hperform hpush => cases hending; exact ending?_of_performed hdecode hperform
  | stayed hdecode hperform => cases hending; exact ending?_of_performed hdecode hperform
  | changed hdecode hperform => cases hending; exact ending?_of_performed hdecode hperform

/-- A turn that ends the run does not move it. -/
theorem pc_of_turn {r : Except Fault Ending} (h : s.turn p around = (s', some r)) : s'.context.pc = s.context.pc := by
  generalize hending : some r = ending at h
  rw [turn_eq_iff] at h
  cases h with
  | undecoded hdecode => rfl
  | failed hdecode hperform => rfl
  | moved hdecode hperform hnext hle => cases hending
  | left hdecode hperform hnext hlt => rfl
  | wrote hdecode hperform hpush => cases hending
  | unanswered hdecode hperform hpush => exact (Context.reaches_of_perform hperform).pc_eq
  | stayed hdecode hperform => rfl
  | changed hdecode hperform => rfl

/-- A run takes a last turn, and ends with it. -/
theorem Runs.exists_last {taken : List (Progress σ)} {outcome : Progress σ × Except Fault Ending}
    (h : s.Runs p around taken outcome) :
    ∃ t, taken.getLast? = some t ∧ t.turn p around = (outcome.1, some outcome.2) := by
  have hne : taken ≠ [] := by
    intro hnil
    cases hnil ▸ h.head?_eq
  have hlast := List.getLast?_eq_some_getLast hne
  exact ⟨_, hlast, h.turn_of_last hlast⟩

end Progress

namespace Program

variable {state : RuleState} {trigger : Option Trigger} {sink : σ} {clock : Clock} {config : Config}

/-- The ending that the last turn of the run brings about, if it does. -/
def ending? [Sink σ] (p : Program) (state : RuleState) (trigger : Option Trigger) (sink : σ) (clock : Clock)
    (config : Config) : Option Ending :=
  (p.turns state trigger sink clock config).getLast?.bind (Progress.ending? p)

/-- Where the run is when it ends, at its last turn, or at the beginning of the code if it takes none. -/
def stop [Sink σ] (p : Program) (state : RuleState) (trigger : Option Trigger) (sink : σ) (clock : Clock)
    (config : Config) : Nat :=
  ((p.turns state trigger sink clock config).getLast?.map fun s => s.context.pc).getD 0

theorem pc_of_refused {s : Progress σ} {f : Fault} (h : p.entered state trigger sink config = (s, .error f)) :
    s.context.pc = 0 := by
  unfold entered Progress.enter at h
  split at h
  · cases h
    rfl
  · dsimp only at h
    split at h <;> cases h
    rfl

variable [Sink σ]

/-- A run that reaches its entry takes a last turn, and comes to an end with it. -/
theorem exists_last_of_begun (clock : Clock) {s : Progress σ}
    (h : p.entered state trigger sink config = (s, .ok ())) :
    ∃ t, (p.turns state trigger sink clock config).getLast? = some t ∧
      t.turn p ⟨state, clock⟩ =
        ((p.runToEnd ⟨state, clock⟩ trigger sink config.effectiveStackLimit).1,
          some (p.runToEnd ⟨state, clock⟩ trigger sink config.effectiveStackLimit).2) := by
  rw [turns_of_begun h, runToEnd_of_begun h]
  exact (Progress.runs_finish s).exists_last

theorem ending?_eq :
    p.ending? state trigger sink clock config =
      (p.runToEnd ⟨state, clock⟩ trigger sink config.effectiveStackLimit).2.toOption := by
  rw [ending?]
  rcases henter : p.entered state trigger sink config with ⟨s, f | ⟨⟩⟩
  · rw [runToEnd_of_refused henter, turns_of_refused henter]
    rfl
  · obtain ⟨t, hlast, hturn⟩ := exists_last_of_begun clock henter
    rw [hlast]
    exact Progress.ending?_of_turn hturn

theorem pc_runToEnd :
    (p.runToEnd ⟨state, clock⟩ trigger sink config.effectiveStackLimit).1.context.pc =
      p.stop state trigger sink clock config := by
  rw [stop]
  rcases henter : p.entered state trigger sink config with ⟨s, f | ⟨⟩⟩
  · rw [runToEnd_of_refused henter, turns_of_refused henter]
    exact pc_of_refused henter
  · obtain ⟨t, hlast, hturn⟩ := exists_last_of_begun clock henter
    rw [hlast]
    exact Progress.pc_of_turn hturn

/-- A run succeeds if its last turn ends it, and then reports that ending. -/
theorem toOption_result :
    (p.execute state trigger sink clock config).result.toOption =
      (p.ending? state trigger sink clock config).map (Ending.outcome state.current) := by
  rw [execute, ending?_eq]
  rcases p.runToEnd ⟨state, clock⟩ trigger sink config.effectiveStackLimit with ⟨s, f | ⟨⟩ | target⟩ <;> rfl

/-- Only a run that ends in a change of state leaves another state behind, entered at the time that the clock shows where the run ends. -/
theorem state_execute :
    (p.execute state trigger sink clock config).state =
      Ending.leaves state (clock.reading (p.stop state trigger sink clock config))
        (p.ending? state trigger sink clock config) := by
  rw [execute, ending?_eq, ← pc_runToEnd]
  rcases p.runToEnd ⟨state, clock⟩ trigger sink config.effectiveStackLimit with ⟨s, f | ⟨⟩ | target⟩ <;> rfl

end Program

end RuleMachine
