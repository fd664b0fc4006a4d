import Mathlib.Data.List.Basic
import RuleMachine.Proofs.Instruction.RoundTrip
import RuleMachine.Proofs.Operator.Exact
import RuleMachine.Proofs.Run.Effect
import RuleMachine.Proofs.Run.Ending
import RuleMachine.Proofs.Run.OnePass
import RuleMachine.Proofs.Run.Writes

/-!
# Why a run fails

Every way in which an instruction can fail is listed once, in `Context.Fails`, with the conditions under which it does: a fault that names an opcode names that of the instruction, whichever operator raised it. A run that fails in an instruction stands at it in the end, so what is reported names the instruction whose opcode is in the program there.
-/

namespace RuleMachine

/-- The opcode in a fault that has one. -/
def Fault.opcode? : Fault → Option Opcode
  | typeMismatch opcode _ | stackUnderflow opcode _ _ | divisionByZero opcode | missingTrigger opcode => some opcode
  | _ => none

/-- The instruction looks at the packet that started the run. -/
def Instruction.loadsTrigger : Instruction → Bool
  | loadSourceAddress | loadSourceEndpoint | loadSourceValue => true
  | _ => false

/-- Why an instruction fails that finds this context. -/
inductive Context.Fails (c : Context) (i : Instruction) : Fault → Prop
  | kind (found : Kind) : Fails c i (.typeMismatch i.opcode found)
  | underflow (hdepth : c.stack.depth < i.takes) : Fails c i (.stackUnderflow i.opcode i.takes c.stack.depth)
  | overflow (hgrows : i.takes < i.leaves) (hroom : c.stack.limit < c.stack.depth - i.takes + i.leaves) :
    Fails c i (.stackOverflow c.stack.limit)
  | register {index : UInt8} (hi : i = .loadRegister index ∨ i = .storeRegister index) (hindex : 16 ≤ index.toNat) :
    Fails c i (.invalidRegister index)
  | zero (hi : i = .arithmetic .div ∨ i = .arithmetic .mod) : Fails c i (.divisionByZero i.opcode)
  | noTrigger (hi : i.loadsTrigger = true) (htrigger : c.trigger = none) : Fails c i (.missingTrigger i.opcode)

/-! ### What an instruction refuses -/

namespace Instruction

/-- Why an instruction comes to nothing with these operands. -/
inductive Rejects (seen : Sight) (i : Instruction) (operands : List Value) : Fault → Prop
  | kind {v : Value} (hv : v ∈ operands) : Rejects seen i operands (.typeMismatch i.opcode v.kind)
  | short (hlength : operands.length < i.takes) : Rejects seen i operands (i.underflow operands)
  | register {index : UInt8} (hi : i = .loadRegister index ∨ i = .storeRegister index) (hindex : 16 ≤ index.toNat) :
    Rejects seen i operands (.invalidRegister index)
  | zero (hi : i = .arithmetic .div ∨ i = .arithmetic .mod) : Rejects seen i operands (.divisionByZero i.opcode)
  | noTrigger (hi : i.loadsTrigger = true) (htrigger : seen.trigger = none) :
    Rejects seen i operands (.missingTrigger i.opcode)

variable {seen : Sight} {i : Instruction} {operands : List Value} {f : Fault}

theorem Rejects.of_blames (h : f.Blames i.opcode operands) : i.Rejects seen operands f := by
  obtain ⟨v, hv, rfl⟩ := h
  exact .kind hv

theorem rejects_of_one {use : Value → Except Fault Instruction.Effect} (htakes : i.takes = 1)
    (hlength : operands.length ≤ i.takes) (h : i.one operands use = .error f)
    (hf : ∀ v, use v = .error f → i.Rejects seen [v] f) : i.Rejects seen operands f := by
  by_cases hshort : operands.length < i.takes
  · cases (one_of_short htakes hshort).symm.trans h
    exact .short hshort
  · obtain ⟨v, rfl⟩ := List.length_eq_one_iff.1 (by omega : operands.length = 1)
    exact hf v h

theorem rejects_of_two {use : Value → Value → Except Fault Instruction.Effect} (htakes : i.takes = 2)
    (hlength : operands.length ≤ i.takes) (h : i.two operands use = .error f)
    (hf : ∀ a b, use a b = .error f → i.Rejects seen [b, a] f) : i.Rejects seen operands f := by
  by_cases hshort : operands.length < i.takes
  · cases (two_of_short htakes hshort).symm.trans h
    exact .short hshort
  · obtain ⟨b, a, rfl⟩ := List.length_eq_two.1 (by omega : operands.length = 2)
    exact hf a b h

theorem rejects_of_deepest {use : Value → Instruction.Effect} (htakes : 0 < i.takes)
    (h : i.deepest operands use = .error f) : i.Rejects seen operands f := by
  unfold deepest at h
  split at h <;> cases h
  next hnone =>
    have hshort := List.getElem?_eq_none_iff.1 hnone
    exact .short (by omega)

theorem rejects_of_fromTrigger {make : Trigger → Value} (hi : i.loadsTrigger = true)
    (h : seen.fromTrigger i.opcode make = .error f) : i.Rejects seen operands f := by
  unfold Sight.fromTrigger at h
  split at h <;> cases h
  next hnone => exact .noTrigger hi hnone

/-- What an instruction refuses in its operands or in what it looks at. -/
theorem rejects_of_effect (hlength : operands.length ≤ i.takes) (h : i.effect seen operands = .error f) :
    i.Rejects seen operands f := by
  cases i
  case loadSourceAddress | loadSourceEndpoint | loadSourceValue => exact rejects_of_fromTrigger rfl h
  case loadRegister index =>
    unfold effect Sight.fromRegister at h
    dsimp only at h
    split at h <;> cases h
    next hnone => exact .register (.inl rfl) (Vector.getElem?_eq_none_iff.1 hnone)
  case storeRegister index =>
    refine rejects_of_one rfl hlength h ?_
    intro v hv
    unfold Sight.intoRegister at hv
    split at hv <;> cases hv
    next hindex => exact .register (.inr rfl) (Nat.not_lt.1 hindex)
  case arithmetic op =>
    refine rejects_of_two rfl hlength h ?_
    intro a b hab
    rcases ArithmeticOp.apply_eq_error_iff.1 (Except.map_eq_error_iff.1 hab) with hfirst | ⟨hop, -, -, rfl⟩
    · exact .of_blames hfirst.blames.swap
    · exact .zero (hop.imp (congrArg _) (congrArg _))
  case bitwise op =>
    exact rejects_of_two rfl hlength h fun a b hab =>
      .of_blames (BitOp.apply_eq_error_iff.1 (Except.map_eq_error_iff.1 hab)).blames.swap
  case datetimeDiff =>
    exact rejects_of_two rfl hlength h fun a b hab =>
      .of_blames (Value.blames_of_datetimeDiff (Except.map_eq_error_iff.1 hab)).swap
  case datetimeCompare order mask =>
    exact rejects_of_two rfl hlength h fun a b hab =>
      .of_blames (Value.blames_of_datetimeCompare (Except.map_eq_error_iff.1 hab)).swap
  case not =>
    exact rejects_of_one rfl hlength h fun v hv => .of_blames (Value.blames_of_complement (Except.map_eq_error_iff.1 hv))
  case compareBlock first last literal =>
    exact rejects_of_one rfl hlength h fun v hv => .of_blames (Value.blames_of_compareBlock (Except.map_eq_error_iff.1 hv))
  case compareUnspecified | compareLoopback =>
    exact rejects_of_one rfl hlength h fun v hv => .of_blames (Value.blames_of_compareAddress (Except.map_eq_error_iff.1 hv))
  case convert target =>
    exact rejects_of_one rfl hlength h fun v hv => .of_blames (Value.blames_of_convert (Except.map_eq_error_iff.1 hv))
  case switch | changeState =>
    exact rejects_of_one rfl hlength h fun v hv => .of_blames (Value.blames_of_integer (Except.map_eq_error_iff.1 hv))
  case write =>
    refine rejects_of_two rfl hlength h ?_
    intro a b hab
    obtain ⟨v, hv, rfl⟩ := Value.blames_of_integer (Except.map_eq_error_iff.1 hab)
    exact .kind (List.mem_cons_of_mem b hv)
  case dup | dupAt | rot | rotAt => exact rejects_of_deepest (Nat.succ_pos _) h
  case decompose mask =>
    refine rejects_of_one rfl hlength h ?_
    intro v hv
    unfold Sight.decomposed at hv
    split at hv <;> cases hv
    exact .kind (List.mem_singleton_self v)
  case typeTag | pop =>
    refine rejects_of_one rfl hlength h ?_
    intro v hv
    cases hv
  case jump condition skip short =>
    cases condition with
    | always => cases h
    | zero | nonZero =>
      refine rejects_of_one rfl hlength h ?_
      intro v hv
      unfold Sight.jumped at hv
      split at hv <;> cases hv
      exact .kind (List.mem_singleton_self v)
  all_goals cases h

end Instruction

namespace Context

variable {c : Context} {i : Instruction} {around : Surroundings} {f : Fault}

theorem Fails.of_rejects (h : i.Rejects (c.sight around) (c.stack.values.take i.takes) f) : c.Fails i f := by
  cases h with
  | kind hv => exact .kind _
  | short hlength =>
    -- Fewer operands than there should be are all that the stack holds.
    rw [List.length_take] at hlength
    have hshort : c.stack.values.length < i.takes := by omega
    rw [Instruction.underflow, List.length_take, Nat.min_eq_right (Nat.le_of_lt hshort)]
    exact .underflow hshort
  | register hi hindex => exact .register hi hindex
  | zero hi => exact .zero hi
  | noTrigger hi htrigger => exact .noTrigger hi htrigger

/-- An instruction fails for one of the reasons that there are. -/
theorem fails_of_perform (hopcode : c.opcode = i.opcode) (hdepth : c.stack.depth ≤ c.stack.limit)
    (h : c.perform around i = .error f) : c.Fails i f := by
  rcases (perform_eq_error_iff hopcode hdepth).1 h with heffect | ⟨⟨e, heffect⟩, hroom, rfl⟩
  · exact .of_rejects (Instruction.rejects_of_effect (c.length_operands i) heffect)
  · have htakes := takes_le_of_effect heffect
    exact .overflow (by omega) hroom

end Context

/-! ### Where a run fails -/

variable {σ : Type} {p : Program} {around : Surroundings}

/-- The run has failed in the instruction at which it stands, on the turn that began with `t`. -/
structure Program.FailedIn (p : Program) (t s : Progress σ) (i : Instruction) (f : Fault) : Prop where
  decoded : ∃ length, Instruction.decode p.bytes s.context.pc = .ok (i, length)
  byte_eq : p.bytes[s.context.pc]? = some i.opcode.toByte
  pc_eq : s.context.pc = t.context.pc
  opcode_eq : s.context.opcode = i.opcode
  named : ∀ opcode, f.opcode? = some opcode → opcode = i.opcode
  /-- The instruction itself fails for what it finds, or it leads out of the program. -/
  reason : t.context.Fails i f ∨ ∃ pc, p.size < pc ∧ f = .pcOutOfRange pc p.size

theorem Context.Fails.opcode_eq {c : Context} {i : Instruction} {f : Fault} (h : c.Fails i f) {opcode : Opcode}
    (hopcode : f.opcode? = some opcode) : opcode = i.opcode := by
  cases h <;> simp_all [Fault.opcode?]

namespace Progress

variable [Sink σ] {t s : Progress σ}

/-- A turn that fails, though there is an instruction to execute, fails in this instruction. -/
theorem failedIn_of_turn {f : Fault} (hdepth : t.context.stack.depth ≤ t.context.stack.limit)
    (h : t.turn p around = (s, some (.error f))) (hf : ∀ e, f ≠ .malformed e) : ∃ i, p.FailedIn t s i f := by
  generalize hending : (some (.error f) : Option (Except Fault Ending)) = ending at h
  rw [turn_eq_iff] at h
  cases h with
  | undecoded hdecode =>
    cases hending
    exact absurd rfl (hf _)
  | @failed i length g hdecode hperform =>
    cases hending
    have hfails : t.context.Fails i f := by
      have hbegun : (t.begin i).context.Fails i f := Context.fails_of_perform rfl hdepth hperform
      cases hbegun with
      | kind found => exact .kind found
      | underflow hshort => exact .underflow hshort
      | overflow hgrows hroom => exact .overflow hgrows hroom
      | register hi hindex => exact .register hi hindex
      | zero hi => exact .zero hi
      | noTrigger hi htrigger => exact .noTrigger hi htrigger
    exact
      ⟨i, ⟨length, hdecode⟩, Instruction.byte_of_decode hdecode, rfl, rfl, fun _ => hfails.opcode_eq, .inl hfails⟩
  | moved hdecode hperform hnext hle => cases hending
  | @left i length c next bytes hdecode hperform hnext hlt =>
    cases hending
    refine ⟨i, ⟨length, hdecode⟩, Instruction.byte_of_decode hdecode, rfl, rfl, ?_, .inr ⟨_, hlt, rfl⟩⟩
    intro opcode hopcode
    cases hopcode
  | wrote hdecode hperform hpush => cases hending
  | unanswered hdecode hperform hpush => exact absurd hpush (answer_ne_error hdepth hdecode hperform _)
  | stayed hdecode hperform => cases hending
  | changed hdecode hperform => cases hending

theorem trigger_of_turn (h : t.turn p around = (s, none)) : s.context.trigger = t.context.trigger := by
  rw [turn_eq_iff] at h
  cases h with
  | moved hdecode hperform hnext hle => exact (Context.reaches_of_perform hperform).trigger_eq
  | wrote hdecode hperform hpush =>
    exact (Context.reaches_of_push hpush).trigger_eq.trans (Context.reaches_of_perform hperform).trigger_eq

end Progress

namespace Program

variable [Sink σ] {state : RuleState} {trigger : Option Trigger} {sink : σ} {clock : Clock} {config : Config}

theorem trigger_of_turns : ∀ t ∈ p.turns state trigger sink clock config, t.context.trigger = trigger := by
  apply forall_turns
  · intro t henter
    obtain ⟨offset, -, -, rfl⟩ := entered_eq_ok_iff.1 henter
    rfl
  · intro t s hturn ht
    exact (Progress.trigger_of_turn hturn).trans ht

theorem runToEnd_of_error {f : Fault} (h : (p.execute state trigger sink clock config).result = .error f) :
    ∃ s, p.runToEnd ⟨state, clock⟩ trigger sink config.effectiveStackLimit = (s, .error f) := by
  rw [execute] at h
  rcases hrun : p.runToEnd ⟨state, clock⟩ trigger sink config.effectiveStackLimit with ⟨s, g | ⟨⟩ | target⟩
  · rw [hrun] at h
    cases h
    exact ⟨s, rfl⟩
  all_goals
    rw [hrun] at h
    cases h

/-- A fault that is not one of the code is raised where an instruction was decoded, and so is a step out of the program. -/
theorem failedIn_of_runToEnd {s : Progress σ} {f : Fault}
    (h : p.runToEnd ⟨state, clock⟩ trigger sink config.effectiveStackLimit = (s, .error f))
    (hf : f.faultClass ≠ .malformedProgram ∨
      (∃ pc size, f = .pcOutOfRange pc size) ∧ p.executed state trigger sink clock config ≠ []) :
    ∃ t i, (p.turns state trigger sink clock config).getLast? = some t ∧ p.FailedIn t s i f := by
  rcases henter : p.entered state trigger sink config with ⟨s₀, g | ⟨⟩⟩
  · cases (runToEnd_of_refused henter).symm.trans h
    rcases hf with hclass | ⟨-, hexecuted⟩
    · exact absurd (faultClass_of_refused henter) hclass
    · rw [executed, turns_of_refused henter] at hexecuted
      exact absurd rfl hexecuted
  · obtain ⟨t, hlast, hturn⟩ := exists_last_of_begun clock henter
    rw [h] at hturn
    have hdepth := (depth_le_of_turns t (List.mem_of_getLast? hlast)).2
    have hmalformed : ∀ e, f ≠ .malformed e := by
      rintro e rfl
      rcases hf with hclass | ⟨⟨pc, size, hpc⟩, -⟩
      · exact hclass rfl
      · cases hpc
    obtain ⟨i, hfailed⟩ := Progress.failedIn_of_turn hdepth hturn hmalformed
    exact ⟨t, i, hlast, hfailed⟩

theorem log_of_error {s : Progress σ} {f : Fault}
    (h : p.runToEnd ⟨state, clock⟩ trigger sink config.effectiveStackLimit = (s, .error f)) :
    (p.execute state trigger sink clock config).log.back? = some (.failed f s.context.pc s.context.opcode) := by
  rw [execute, h]
  exact Array.back?_push

/-- A run that fails is reported with where it stands. Unless it is the code itself that is at fault, that is where the instruction which failed stands in the program, and the fault tells what this instruction found. -/
theorem fault_names_instruction (p : Program) (state : RuleState) (trigger : Option Trigger) (sink : σ) (clock : Clock)
    (config : Config) {f : Fault} (h : (p.execute state trigger sink clock config).result = .error f) :
    ∃ s, p.runToEnd ⟨state, clock⟩ trigger sink config.effectiveStackLimit = (s, .error f) ∧
      (p.execute state trigger sink clock config).log.back? = some (.failed f s.context.pc s.context.opcode) ∧
      ((f.faultClass ≠ .malformedProgram ∨
          (∃ pc size, f = .pcOutOfRange pc size) ∧ p.executed state trigger sink clock config ≠ []) →
        ∃ t i, (p.turns state trigger sink clock config).getLast? = some t ∧ p.FailedIn t s i f ∧
          (∀ opcode needed depth, f = .stackUnderflow opcode needed depth →
            needed = i.takes ∧ depth = t.context.stack.depth ∧ depth < needed) ∧
          (∀ opcode, f = .divisionByZero opcode → opcode = .div ∨ opcode = .mod) ∧
          (∀ opcode, f = .missingTrigger opcode → i.loadsTrigger = true ∧ trigger = none)) := by
  obtain ⟨s, hrun⟩ := runToEnd_of_error h
  refine ⟨s, hrun, log_of_error hrun, ?_⟩
  intro hf
  obtain ⟨t, i, hlast, hfailed⟩ := failedIn_of_runToEnd hrun hf
  refine ⟨t, i, hlast, hfailed, ?underflow, ?zero, ?noTrigger⟩
  case underflow =>
    rintro opcode needed depth rfl
    rcases hfailed.reason with hfails | ⟨_, -, hout⟩
    · cases hfails with
      | underflow hshort => exact ⟨rfl, rfl, hshort⟩
    · cases hout
  case zero =>
    rintro opcode rfl
    rcases hfailed.reason with hfails | ⟨_, -, hout⟩
    · cases hfails with
      | zero hi => exact hi.imp (congrArg Instruction.opcode) (congrArg Instruction.opcode)
    · cases hout
  case noTrigger =>
    rintro opcode rfl
    rcases hfailed.reason with hfails | ⟨_, -, hout⟩
    · cases hfails with
      | noTrigger hi htrigger =>
        exact ⟨hi, (trigger_of_turns t (List.mem_of_getLast? hlast)).symm.trans htrigger⟩
    · cases hout

/-- A program that copies from five places below the top, where there is nothing but the top. -/
def copying : Program := ⟨#[0, 0, 5, 0, 5, 7, 1, 28, 5], by decide⟩

/-- The copy asks for six values and finds one. -/
theorem fault_names_instruction_dupAt :
    (copying.execute Sample.state none LoggingSink.mk Sample.clock {}).result =
        .error (.stackUnderflow .dupI 6 1) ∧
      ∃ s : Progress LoggingSink,
        (copying.execute Sample.state none LoggingSink.mk Sample.clock {}).log.back? =
            some (.failed (.stackUnderflow .dupI 6 1) s.context.pc s.context.opcode) ∧
          ∃ t i, copying.FailedIn t s i (.stackUnderflow .dupI 6 1) := by
  have hresult : (copying.execute Sample.state none LoggingSink.mk Sample.clock {}).result =
      .error (.stackUnderflow .dupI 6 1) := by cbv
  obtain ⟨s, -, hlog, hfailed⟩ := fault_names_instruction _ _ _ _ _ _ hresult
  obtain ⟨t, i, -, hin, -⟩ := hfailed (.inl (by decide))
  exact ⟨hresult, s, hlog, t, i, hin⟩

end Program

end RuleMachine
