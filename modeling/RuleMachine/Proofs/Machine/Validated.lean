import RuleMachine.Proofs.Instruction.Refusal
import RuleMachine.Proofs.Machine.History
import RuleMachine.Proofs.Program.Header
import RuleMachine.Proofs.Run.Faults
import RuleMachine.Proofs.Run.Locality

/-!
# Programs that were checked

A machine that checks its programs holds one with a right header, whatever is done to it: a program that is refused is never held. The runs of such a program begin behind the header, and since they only go forwards they stay there. What can still be wrong is the code, so a run that fails for its program fails where it cannot decode, or steps out at the end.
-/

namespace RuleMachine

variable {σ : Type}

/-- The error is one of code that is read. The others are of headers, of instructions that cannot be written and of programs that cannot be made. -/
def CodeError.IsOfDecoding : CodeError → Prop
  | unexpectedEnd _ | invalidOpcode _ _ | invalidBlockRange _ _ => True
  | unsupportedVersion _ | entryOutOfBounds _ | programTooLarge _ => False
  | tooManyCases _ | shortSkipOutOfRange _ | blockLengthMismatch _ _ => False

/-! ### What a run of a checked program does -/

namespace Progress

variable [Sink σ] {p : Program} {around : Surroundings} {s s' : Progress σ}

/-- A turn fails for the code only where it does not decode. -/
theorem decode_of_malformed {e : CodeError} (hdepth : s.context.stack.depth ≤ s.context.stack.limit)
    (h : s.turn p around = (s', some (.error (.malformed e)))) :
    Instruction.decode p.bytes s.context.pc = .error e := by
  generalize hending : (some (.error (.malformed e)) : Option (Except Fault Ending)) = ending at h
  rw [turn_eq_iff] at h
  cases h with
  | undecoded hdecode =>
    cases hending
    exact hdecode
  | @failed i length f hdecode hperform =>
    cases hending
    have hfails : (s.begin i).context.Fails i (.malformed e) := Context.fails_of_perform rfl hdepth hperform
    cases hfails
  | moved hdecode hperform hnext hle => cases hending
  | left hdecode hperform hnext hlt => cases hending
  | wrote hdecode hperform hpush => cases hending
  | unanswered hdecode hperform hpush => exact absurd hpush (answer_ne_error hdepth hdecode hperform _)
  | stayed hdecode hperform => cases hending
  | changed hdecode hperform => cases hending

end Progress

namespace Program

/-- A run begins at an entry behind the header, executes nothing before it, and if it fails for its code then in its last turn, which stands behind the header where the code does not decode: at its end, at a byte that is no opcode or at a range that is none. -/
structure KeepsToCode [Sink σ] (p : Program) (state : RuleState) (trigger : Option Trigger) (sink : σ) (clock : Clock)
    (config : Config) : Prop where
  entered : ∃ entry, p.entryOffset (.ofTrigger trigger) = .ok entry ∧ headerSize ≤ entry.toNat ∧ entry.toNat < p.size ∧
    ((p.turns state trigger sink clock config).map fun s => s.context.pc).head? = some entry.toNat
  executed : ∀ a ∈ p.executed state trigger sink clock config, headerSize ≤ a.pc
  decoding : ∀ e, (p.execute state trigger sink clock config).result = .error (.malformed e) → e.IsOfDecoding
  located : ∀ e, (p.execute state trigger sink clock config).result = .error (.malformed e) →
    ∃ t, (p.turns state trigger sink clock config).getLast? = some t ∧ headerSize ≤ t.context.pc ∧
      Instruction.decode p.bytes t.context.pc = .error e ∧
        (e = .unexpectedEnd p.size ∨ (∃ byte, e = .invalidOpcode byte t.context.pc) ∨
          ∃ first last, e = .invalidBlockRange first last)

variable [Sink σ] {p : Program} {state : RuleState} {trigger : Option Trigger} {sink : σ} {clock : Clock} {config : Config}

/-- The turns of a run lie between its entry and the end of the program. -/
theorem pc_range_of_turns {offset : UInt16} (hoffset : p.entryOffset (.ofTrigger trigger) = .ok offset) :
    ∀ s ∈ p.turns state trigger sink clock config, offset.toNat ≤ s.context.pc ∧ s.context.pc ≤ p.size := by
  apply forall_turns
  · intro s henter
    obtain ⟨offset', hoffset', hle, rfl⟩ := entered_eq_ok_iff.1 henter
    cases hoffset.symm.trans hoffset'
    exact ⟨Nat.le_refl _, hle⟩
  · intro s s' hturn hs
    obtain ⟨hlt, hle⟩ := Progress.turn_advances hturn
    omega

/-- A run that reaches its entry fails for its code where its last turn does not decode. -/
theorem decode_of_malformed {s : Progress σ} (henter : p.entered state trigger sink config = (s, .ok ())) {e : CodeError}
    (h : (p.execute state trigger sink clock config).result = .error (.malformed e)) :
    ∃ t, (p.turns state trigger sink clock config).getLast? = some t ∧
      Instruction.decode p.bytes t.context.pc = .error e := by
  obtain ⟨s', hrun⟩ := runToEnd_of_error h
  obtain ⟨t, hlast, hturn⟩ := exists_last_of_begun clock henter
  rw [hrun] at hturn
  have hdepth := (depth_le_of_turns t (List.mem_of_getLast? hlast)).2
  exact ⟨t, hlast, Progress.decode_of_malformed hdepth hturn⟩

theorem keepsToCode_of_validate (h : p.validate = .ok ()) : p.KeepsToCode state trigger sink clock config := by
  obtain ⟨offset, hoffset, hbehind, hlt⟩ := validate_eq_ok_iff.1 h (.ofTrigger trigger)
  obtain ⟨s, henter, hcontext⟩ := @entered_of_le σ p state trigger sink config offset hoffset (Nat.le_of_lt hlt)
  refine ⟨⟨offset, hoffset, hbehind, hlt, ?head⟩, ?executed, ?decoding, ?located⟩
  case head =>
    rw [turns_of_begun henter, List.head?_map, (Progress.runs_finish s).head?_eq, Option.map_some, hcontext]
  case executed =>
    intro a ha
    exact Nat.le_trans hbehind (entry_le_of_executed hoffset ha)
  case decoding =>
    intro e he
    obtain ⟨t, -, hdecode⟩ := decode_of_malformed henter he
    cases Instruction.refuses_of_decode hdecode <;> trivial
  case located =>
    intro e he
    obtain ⟨t, hlast, hdecode⟩ := decode_of_malformed henter he
    obtain ⟨hle, hend⟩ := pc_range_of_turns hoffset t (List.mem_of_getLast? hlast)
    refine ⟨t, hlast, Nat.le_trans hbehind hle, hdecode, ?_⟩
    cases Instruction.refuses_of_decode hdecode with
    | ended => exact .inl (congrArg CodeError.unexpectedEnd (Nat.max_eq_left hend))
    | opcode hbyte hunknown => exact .inr (.inl ⟨_, rfl⟩)
    | range hbyte hrange hwrong => exact .inr (.inr ⟨_, _, rfl⟩)

end Program

/-! ### The program that a machine holds -/

/-- If the operation loads a machine, it is one that checks its programs. -/
def Operation.Checks : Operation σ → Prop
  | load _ _ _ config => config.validateOnLoad = true
  | _ => True

namespace Machine

variable {m : Machine σ}

theorem admits_of_load {p : Program} {sink : σ} {now : Moment} {config : Config} (h : load p sink now config = .ok m) :
    config.Admits p ∧ m = ⟨p, .start config.initialState now, sink, now, config⟩ := by
  obtain ⟨⟨⟩, haccept, hreturn⟩ := Except.bind_eq_ok_iff.1 h
  cases hreturn
  exact ⟨accept_eq_ok_iff.1 haccept, rfl⟩

variable [Sink σ]

/-- What a machine holds its settings let be installed. -/
theorem admits_apply (h : m.config.Admits m.program) (operation : Operation σ) :
    (m.apply operation).1.config.Admits (m.apply operation).1.program := by
  cases operation with
  | load p sink now config =>
    rcases m.apply_load p sink now config with ⟨hadmits, happly⟩ | ⟨hadmits, f, happly⟩
    · rw [happly]
      exact hadmits
    · rw [happly]
      exact h
  | replace p =>
    rcases m.apply_replace p with ⟨hadmits, happly⟩ | ⟨hadmits, f, happly⟩
    · rw [happly]
      exact hadmits
    · rw [happly]
      exact h
  | _ => exact h

theorem admits_after (h : m.config.Admits m.program) (operations : List (Operation σ)) :
    (m.after operations).config.Admits (m.after operations).program := by
  induction operations using List.reverseRecOn with
  | nil => exact h
  | append_singleton operations operation ih =>
    rw [after_concat]
    exact admits_apply ih operation

theorem validateOnLoad_apply (h : m.config.validateOnLoad = true) {operation : Operation σ} (hchecks : operation.Checks) :
    (m.apply operation).1.config.validateOnLoad = true := by
  cases operation with
  | load p sink now config =>
    rcases m.apply_load p sink now config with ⟨hadmits, happly⟩ | ⟨hadmits, f, happly⟩
    · rw [happly]
      exact hchecks
    · rw [happly]
      exact h
  | replace p =>
    rcases m.apply_replace p with ⟨-, happly⟩ | ⟨-, f, happly⟩ <;> rw [happly] <;> exact h
  | _ => exact h

theorem validateOnLoad_after (h : m.config.validateOnLoad = true) {operations : List (Operation σ)}
    (hchecks : ∀ operation ∈ operations, operation.Checks) : (m.after operations).config.validateOnLoad = true := by
  induction operations using List.reverseRecOn with
  | nil => exact h
  | append_singleton operations operation ih =>
    obtain ⟨hbefore, hlast⟩ := List.forall_mem_append.1 hchecks
    rw [after_concat]
    exact validateOnLoad_apply (ih hbefore) (hlast operation (List.mem_singleton_self _))

/-- Whatever is done to a machine that checks its programs, the one it holds has a right header, and every run of it keeps to the code behind that header. -/
theorem runs_of_checked {p : Program} {sink : σ} {now : Moment} {config : Config} (hload : load p sink now config = .ok m)
    (hchecked : config.validateOnLoad = true) (operations : List (Operation σ))
    (hchecks : ∀ operation ∈ operations, operation.Checks) :
    (m.after operations).program.validate = .ok () ∧
      ∀ trigger clock, (m.after operations).program.KeepsToCode (m.after operations).state trigger
        (m.after operations).sink clock (m.after operations).config := by
  obtain ⟨hadmits, hm⟩ := admits_of_load hload
  have hstart : m.config.validateOnLoad = true := by
    rw [hm]
    exact hchecked
  have hheld : m.config.Admits m.program := by
    rw [hm]
    exact hadmits
  have hvalidate := admits_after hheld operations (validateOnLoad_after hstart hchecks)
  exact ⟨hvalidate, fun _ _ => Program.keepsToCode_of_validate hvalidate⟩

/-- A machine that was just loaded. -/
def fresh : Machine LoggingSink := ⟨Sample.change, .start 0 Sample.now, LoggingSink.mk, Sample.now, {}⟩

/-- A program with a right header whose second instruction is none. -/
def broken : Program := ⟨#[0, 0, 6, 0, 5, 56, 0, 127], by decide⟩

/-- A run, a program that is refused for an entry into the header, and one that is not. -/
def replacements : List (Operation LoggingSink) :=
  [.run none Sample.clock, .replace ⟨#[0, 0, 2, 0, 5, 60], by decide⟩, .replace broken]

/-- The program that is held after these has a right header, and runs of it fail where it does not decode. -/
theorem runs_of_checked_replaced :
    load Sample.change LoggingSink.mk Sample.now {} = .ok fresh ∧ (fresh.after replacements).program = broken ∧
      ((fresh.after replacements).run none Sample.clock).2.1 = .error (.malformed (.invalidOpcode 127 7)) ∧
      (fresh.after replacements).program.validate = .ok () := by
  have hload : load Sample.change LoggingSink.mk Sample.now {} = .ok fresh := by rfl
  refine ⟨hload, ?_, ?_, (runs_of_checked hload rfl _ ?_).1⟩
  · rw [replacements, after_cons, apply_run]
    cbv
  · rw [replacements, after_cons, apply_run]
    change (Program.execute _ _ _ _ _ _).result = _
    cbv
  · simp [replacements, Operation.Checks]

end Machine

end RuleMachine
