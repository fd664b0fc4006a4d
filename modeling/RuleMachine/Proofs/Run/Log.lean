import Mathlib.Data.List.Basic
import RuleMachine.Proofs.Run.OnePass
import RuleMachine.Proofs.Run.Writes

/-!
# The log of a run

A run reports its start, each of its turns and how it ended, and nothing else. What a turn reports is a function of where it starts from: `Progress.events`, and a turn appends just that to the log. The log of a whole run is therefore what is reported of its entry, the events of its turns one after the other, and the event of its result. A sink that reports for itself is heard between a step and the write that the step makes.
-/

namespace RuleMachine

namespace Event

/-- The instruction that a step tells of, with its place. -/
def step? : Event → Option (Nat × Instruction)
  | step pc i _ => some (pc, i)
  | _ => none

/-- The write that an answer tells of. -/
def write? : Event → Option Write
  | written endpoint v code => some ⟨endpoint, v, code⟩
  | _ => none

/-- The event, if it is one that opens or closes a run. -/
def frame? : Event → Option Event
  | running offset entry state => some (running offset entry state)
  | failed f pc opcode => some (failed f pc opcode)
  | stateChanged before after => some (stateChanged before after)
  | _ => none

end Event

variable {σ : Type}

section

variable [Sink σ]

/-- What is reported when a sink is called: what it reports itself, and then what it was called with and its answer. -/
def Sink.events (sink : σ) (request : UInt32 × Value) : List Event :=
  let reply := Sink.write sink request.1 request.2
  reply.events ++ [.written request.1 request.2 reply.code]

/-- Such a sink reports nothing but that values are written. -/
def Sink.ReportsWrites (σ : Type) [Sink σ] : Prop :=
  ∀ (sink : σ) (endpoint : UInt32) (v : Value), ∀ e ∈ (Sink.write sink endpoint v).events,
    ∃ endpoint' v', e = .endpointWrite endpoint' v'

theorem LoggingSink.reportsWrites : Sink.ReportsWrites LoggingSink := by
  intro sink endpoint v e he
  exact ⟨endpoint, v, List.mem_singleton.1 he⟩

theorem Sink.filterMap_events (hsink : Sink.ReportsWrites σ) (sink : σ) (request : UInt32 × Value) {α : Type}
    {g : Event → Option α} (hg : ∀ endpoint v, g (.endpointWrite endpoint v) = none) :
    (Sink.events sink request).filterMap g =
      (g (.written request.1 request.2 (Sink.write sink request.1 request.2).code)).toList := by
  have hown : (Sink.write sink request.1 request.2).events.filterMap g = [] := by
    rw [List.filterMap_eq_nil_iff]
    intro e he
    obtain ⟨endpoint, v, rfl⟩ := hsink sink request.1 request.2 e he
    exact hg endpoint v
  rw [Sink.events, List.filterMap_append, hown, List.nil_append, List.filterMap_eq_flatMap_toList,
    List.flatMap_singleton]

end

variable [Sink σ] {p : Program} {around : Surroundings}

namespace Progress

variable {s s' : Progress σ} {i : Instruction} {length : Nat}

/-- What the turn from here reports: a step, if there is an instruction to execute, and then the call of the sink, if the instruction makes one. -/
def events (p : Program) (s : Progress σ) : List Event :=
  match s.placed? p with
  | none => []
  | some a => .step a.pc a.instruction s.context.stack.depth :: (s.request? p).toList.flatMap (Sink.events s.sink)

theorem events_of_undecoded {e : CodeError} (hdecode : Instruction.decode p.bytes s.context.pc = .error e) :
    s.events p = [] := by
  rw [events, placed?, hdecode]

theorem events_of_decoded (hdecode : Instruction.decode p.bytes s.context.pc = .ok (i, length)) :
    s.events p =
      .step s.context.pc i s.context.stack.depth :: (s.request? p).toList.flatMap (Sink.events s.sink) := by
  rw [events, placed?, hdecode]

/-! ### One turn -/

theorem log_begin (hdecode : Instruction.decode p.bytes s.context.pc = .ok (i, length)) (h : s.request? p = none) :
    (s.begin i).log.toList = s.log.toList ++ s.events p := by
  rw [events_of_decoded hdecode, h]
  exact Array.toList_push

theorem log_write (hdecode : Instruction.decode p.bytes s.context.pc = .ok (i, length)) {endpoint : UInt32} {v : Value}
    (h : s.request? p = some (endpoint, v)) (c : Context) :
    ({ s.begin i with context := c }.write endpoint v).1.log.toList = s.log.toList ++ s.events p := by
  rw [events_of_decoded hdecode, h]
  simp [write, begin, Sink.events]

/-- A turn reports its events and nothing else, whatever it comes to. -/
theorem log_of_turn {ending : Option (Except Fault Ending)} (h : s.turn p around = (s', ending)) :
    s'.log.toList = s.log.toList ++ s.events p := by
  rw [turn_eq_iff] at h
  cases h with
  | undecoded hdecode => rw [events_of_undecoded hdecode, List.append_nil]
  | failed hdecode hperform => exact log_begin hdecode (request?_of_failed hdecode hperform)
  | moved hdecode hperform hnext hle =>
    exact log_begin hdecode ((request?_of_performed hdecode hperform).trans (Next.request?_of_passed hnext))
  | left hdecode hperform hnext hlt =>
    exact log_begin hdecode ((request?_of_performed hdecode hperform).trans (Next.request?_of_passed hnext))
  | wrote hdecode hperform hpush => exact log_write hdecode (request?_of_performed hdecode hperform) _
  | unanswered hdecode hperform hpush => exact log_write hdecode (request?_of_performed hdecode hperform) _
  | stayed hdecode hperform => exact log_begin hdecode (request?_of_performed hdecode hperform)
  | changed hdecode hperform => exact log_begin hdecode (request?_of_performed hdecode hperform)

/-- Of the events of a turn, those are its step and its answered write that are not the sink's own. -/
theorem filterMap_events (hsink : Sink.ReportsWrites σ) (s : Progress σ) {α : Type} {g : Event → Option α}
    (hg : ∀ endpoint v, g (.endpointWrite endpoint v) = none) :
    (s.events p).filterMap g =
      (s.placed? p).toList.filterMap (fun a => g (.step a.pc a.instruction s.context.stack.depth)) ++
        (s.answered? p).toList.filterMap fun w => g (.written w.endpoint w.value w.code) := by
  cases hdecode : Instruction.decode p.bytes s.context.pc with
  | error e =>
    rw [events_of_undecoded hdecode, answered?, request?_of_undecoded hdecode, placed?, hdecode]
    rfl
  | ok decoded =>
    obtain ⟨i, length⟩ := decoded
    rw [events_of_decoded hdecode, placed?, hdecode, answered?, ← List.singleton_append, List.filterMap_append]
    congr 1
    cases s.request? p with
    | none => rfl
    | some request =>
      rw [Option.toList_some, List.flatMap_singleton, Sink.filterMap_events hsink s.sink request hg, Option.map_some,
        Option.toList_some, List.filterMap_eq_flatMap_toList, List.flatMap_singleton]

/-! ### Whole runs -/

theorem Runs.log_eq {taken : List (Progress σ)} {outcome : Progress σ × Except Fault Ending}
    (h : s.Runs p around taken outcome) : outcome.1.log.toList = s.log.toList ++ taken.flatMap (events p) := by
  induction h with
  | last hturn => rw [log_of_turn hturn, List.flatMap_singleton]
  | next hturn hrest ih => rw [ih, log_of_turn hturn, List.append_assoc, List.flatMap_cons]

end Progress

/-- The event that reports a result. -/
inductive Closing : Except Fault Outcome → List Event → Prop
  | failed {f : Fault} {pc : Nat} {opcode : Opcode} : Closing (.error f) [.failed f pc opcode]
  | changed {before after : UInt32} : Closing (.ok (.changed before after)) [.stateChanged before after]
  | stayed {state : UInt32} : Closing (.ok (.stayed state)) []

/-- The message that reports a result, with its fields: the text and the class of an error, or the states before and after a change. -/
def closingTexts : Except Fault Outcome → List (String × List (String × String))
  | .error f => [("program run failed", [("error", f.message), ("kind", f.faultClass.name)])]
  | .ok (.changed before after) =>
    [("state changed", [("from", toString before.toNat), ("to", toString after.toNat)])]
  | .ok (.stayed _) => []

theorem Closing.texts_eq {r : Except Fault Outcome} {closing : List Event} (h : Closing r closing) :
    (closing.map fun e => (e.message, e.fields.take 2)) = closingTexts r := by
  cases h <;> rfl

theorem Closing.views {r : Except Fault Outcome} {closing : List Event} (h : Closing r closing) :
    closing.filterMap Event.step? = [] ∧ closing.filterMap Event.write? = [] ∧
      closing.filterMap Event.frame? = closing := by
  cases h <;> exact ⟨rfl, rfl, rfl⟩

omit [Sink σ] in
theorem Report.exists_closing (state : RuleState) (clock : Clock) (outcome : Progress σ × Except Fault Ending) :
    ∃ closing, Closing (Report.ofEnding state clock outcome).result closing ∧
      (Report.ofEnding state clock outcome).log.toList = outcome.1.log.toList ++ closing := by
  obtain ⟨s, f | ⟨⟩ | target⟩ := outcome
  · exact ⟨_, .failed, Array.toList_push⟩
  · exact ⟨_, .stayed, (List.append_nil _).symm⟩
  · exact ⟨_, .changed, Array.toList_push⟩

namespace Program

variable {state : RuleState} {trigger : Option Trigger} {sink : σ} {clock : Clock} {config : Config}

/-- What is reported of the entry of a run: it, if the header could be read for it. -/
def opening (p : Program) (entry : Entry) (state : UInt32) : List Event :=
  match p.entryOffset entry with
  | .ok offset => [.running offset entry state]
  | .error _ => []

theorem opening_views (p : Program) {entry : Entry} {current : UInt32} :
    (p.opening entry current).filterMap Event.step? = [] ∧ (p.opening entry current).filterMap Event.write? = [] ∧
      (p.opening entry current).filterMap Event.frame? = p.opening entry current := by
  unfold opening
  split <;> exact ⟨rfl, rfl, rfl⟩

omit [Sink σ] in
theorem log_of_entered {s : Progress σ} {r : Except Fault Unit} (h : p.entered state trigger sink config = (s, r)) :
    s.log.toList = p.opening (.ofTrigger trigger) state.current := by
  unfold entered Progress.enter at h
  unfold opening
  split at h
  · next hoffset =>
    cases h
    rw [hoffset]
  · next hoffset =>
    rw [hoffset]
    dsimp only at h
    -- An entry beyond the end of the program is reported as well, and only then refused.
    split at h <;> cases h <;> rfl

/-- How the log of a run belongs to its turns, to what it handed to its sink and to its result. -/
structure LogTrace (p : Program) (opening closing : List Event) (taken : List (Progress σ)) (writes : List Write)
    (report : Report σ) : Prop where
  /-- The entry is reported, then every turn, then the result. -/
  log_eq : report.log.toList = opening ++ taken.flatMap (Progress.events p) ++ closing
  /-- The result is told with its text. -/
  texts_eq : (closing.map fun e => (e.message, e.fields.take 2)) = closingTexts report.result
  /-- The steps lie in the code one behind the other. -/
  increasing : ((Progress.placed p taken).map Placed.pc).Pairwise (· < ·)
  /-- There is one step for each instruction that is executed. -/
  steps_eq : Sink.ReportsWrites σ →
    report.log.toList.filterMap Event.step? = (Progress.placed p taken).map fun a => (a.pc, a.instruction)
  /-- There is one answer for each call of the sink. -/
  writes_eq : Sink.ReportsWrites σ → report.log.toList.filterMap Event.write? = writes
  /-- Nothing else is reported of the entry and of the result. -/
  frame_eq : Sink.ReportsWrites σ → report.log.toList.filterMap Event.frame? = opening ++ closing

variable {opening closing : List Event} {taken : List (Progress σ)} {writes : List Write} {report : Report σ}

/-- What such a log tells, seen through a view of the events that leaves out what the sink reports itself. -/
theorem filterMap_log (hlog : report.log.toList = opening ++ taken.flatMap (Progress.events p) ++ closing)
    (hsink : Sink.ReportsWrites σ) {α : Type} {g : Event → Option α}
    (hg : ∀ endpoint v, g (.endpointWrite endpoint v) = none) :
    report.log.toList.filterMap g =
      opening.filterMap g ++
        (taken.flatMap fun s =>
          (s.placed? p).toList.filterMap (fun a => g (.step a.pc a.instruction s.context.stack.depth)) ++
            (s.answered? p).toList.filterMap fun w => g (.written w.endpoint w.value w.code)) ++
        closing.filterMap g := by
  rw [hlog, List.filterMap_append, List.filterMap_append, List.filterMap_flatMap]
  simp only [Progress.filterMap_events hsink _ hg]

theorem logTrace_of_log_eq {entry : Entry} {current : UInt32} (hclosing : Closing report.result closing)
    (hlog : report.log.toList = p.opening entry current ++ taken.flatMap (Progress.events p) ++ closing)
    (hincreasing : ((Progress.placed p taken).map Placed.pc).Pairwise (· < ·)) :
    p.LogTrace (p.opening entry current) closing taken (taken.filterMap (Progress.answered? p)) report where
  log_eq := hlog
  texts_eq := hclosing.texts_eq
  increasing := hincreasing
  steps_eq := by
    intro hsink
    rw [filterMap_log hlog hsink (fun _ _ => rfl), p.opening_views.1, hclosing.views.1, Progress.placed,
      List.filterMap_eq_flatMap_toList, List.map_flatMap]
    simp [Event.step?]
  writes_eq := by
    intro hsink
    rw [filterMap_log hlog hsink (fun _ _ => rfl), p.opening_views.2.1, hclosing.views.2.1,
      List.filterMap_eq_flatMap_toList]
    simp [Event.write?]
  frame_eq := by
    intro hsink
    rw [filterMap_log hlog hsink (fun _ _ => rfl), p.opening_views.2.2, hclosing.views.2.2]
    simp [Event.frame?]

/-- The log of a run tells of its entry if the header could be read for it, then of each of its turns, and in the end of its result: of an error with its text and class, of a change with the states before and after it, and of nothing if the state stays. -/
theorem log_tells_run (p : Program) (state : RuleState) (trigger : Option Trigger) (sink : σ) (clock : Clock)
    (config : Config) :
    p.Runs state trigger sink clock config (p.turns state trigger sink clock config)
        (p.execute state trigger sink clock config) ∧
      ∃ closing, Closing (p.execute state trigger sink clock config).result closing ∧
        p.LogTrace (p.opening (.ofTrigger trigger) state.current) closing (p.turns state trigger sink clock config)
          (p.writes state trigger sink clock config) (p.execute state trigger sink clock config) := by
  refine ⟨runs_execute, ?_⟩
  rw [writes_eq_answered]
  rcases henter : p.entered state trigger sink config with ⟨s, f | ⟨⟩⟩
  · obtain ⟨closing, hclosing, hlog⟩ := Report.exists_closing state clock (s, .error f)
    rw [execute_of_refused henter, turns_of_refused henter]
    refine ⟨closing, hclosing, logTrace_of_log_eq hclosing ?_ List.Pairwise.nil⟩
    rw [hlog, log_of_entered henter, List.flatMap_nil, List.append_nil]
  · obtain ⟨closing, hclosing, hlog⟩ := Report.exists_closing state clock (s.finish p ⟨state, clock⟩)
    have hruns : s.Runs p ⟨state, clock⟩ _ _ := Progress.runs_finish s
    rw [execute_of_begun henter, turns_of_begun henter]
    refine ⟨closing, hclosing, logTrace_of_log_eq hclosing ?_ ?_⟩
    · rw [hlog, hruns.log_eq, log_of_entered henter]
    · rw [List.pairwise_map]
      refine hruns.pairwise_placed.imp ?_
      intro a b hbehind
      exact Nat.lt_of_lt_of_le hbehind.1 hbehind.2

/-- A program that writes 9 to the endpoint 5. -/
def writing : Program := ⟨#[0, 0, 5, 0, 5, 7, 5, 7, 9, 57, 60], by decide⟩

/-- The answers in the log are the writes that were made. -/
theorem log_tells_run_write :
    (writing.execute Sample.state none LoggingSink.mk Sample.clock {}).log.toList.filterMap Event.write? =
        writing.writes Sample.state none LoggingSink.mk Sample.clock {} ∧
      writing.writes Sample.state none LoggingSink.mk Sample.clock {} = [⟨5, .u8 9, 0⟩] := by
  constructor
  · obtain ⟨-, closing, -, htrace⟩ := log_tells_run writing Sample.state none LoggingSink.mk Sample.clock {}
    exact htrace.writes_eq LoggingSink.reportsWrites
  · cbv

end Program

end RuleMachine
