import RuleMachine.Proofs.Instruction.RoundTrip
import RuleMachine.Proofs.Run.Depth
import RuleMachine.Proofs.Run.Record

/-!
# What a run hands to its sink

A turn calls the sink only at a write that finds an endpoint and a value on the stack, once, and with these. Because a write frees two places before it pushes the answer, the answer always finds room, so a call is never followed by a failure of its own turn. The sink in the end is therefore the one that the calls of all turns lead to, whatever the run comes to.
-/

namespace RuleMachine

/-- The sink after it was called with an endpoint and a value. -/
def Sink.deliver {σ : Type} [Sink σ] (sink : σ) (request : UInt32 × Value) : σ :=
  (Sink.write sink request.1 request.2).sink

def Next.request? : Next → Option (UInt32 × Value)
  | write endpoint v => some (endpoint, v)
  | _ => none

theorem Next.request?_of_passed {next : Next} {bytes : Nat} (h : next.passed? = some bytes) : next.request? = none := by
  cases next <;> first | rfl | cases h

variable {σ : Type} {p : Program} {around : Surroundings}

namespace Progress

variable {s s' : Progress σ}

/-- What the turn from here calls the sink with, if it calls it: at a write, the integer below the top of the stack and the value on top. -/
def request? (p : Program) (s : Progress σ) : Option (UInt32 × Value) :=
  match Instruction.decode p.bytes s.context.pc, s.context.stack.values with
  | .ok (.write, _), v :: w :: _ => w.word?.map fun endpoint => (endpoint, v)
  | _, _ => none

theorem request?_eq_some_iff {endpoint : UInt32} {v : Value} :
    s.request? p = some (endpoint, v) ↔
      Instruction.decode p.bytes s.context.pc = .ok (.write, 1) ∧
        ∃ w rest, s.context.stack.values = v :: w :: rest ∧ w.word? = some endpoint := by
  unfold request?
  split
  · next length v' w rest hdecode hvalues =>
    obtain rfl : length = 1 := Instruction.length_of_decode hdecode
    rw [hdecode, hvalues]
    simp only [Option.map_eq_some_iff, true_and]
    constructor
    · rintro ⟨n, hw, heq⟩
      cases heq
      exact ⟨w, rest, rfl, hw⟩
    · rintro ⟨w', rest', heq, hw⟩
      cases heq
      exact ⟨endpoint, hw, rfl⟩
  · next hother =>
    constructor
    · intro h
      cases h
    · rintro ⟨hdecode, w, rest, hvalues, -⟩
      exact absurd hvalues (hother _ _ _ _ hdecode)

theorem perform_of_request (around : Surroundings) {endpoint : UInt32} {v : Value}
    (h : s.request? p = some (endpoint, v)) :
    ∃ w rest, s.context.stack.values = v :: w :: rest ∧
      (s.begin .write).context.perform around .write =
        .ok ({ (s.begin .write).context with stack := { s.context.stack with values := rest } }, .write endpoint v) := by
  obtain ⟨-, w, rest, hvalues, hw⟩ := request?_eq_some_iff.1 h
  exact ⟨w, rest, hvalues, Context.perform_write_eq_ok_iff.2 ⟨w, rest, hvalues, hw, rfl⟩⟩

theorem request?_of_undecoded {e : CodeError} (hdecode : Instruction.decode p.bytes s.context.pc = .error e) :
    s.request? p = none := by
  rw [request?, hdecode]

theorem request?_of_failed {i : Instruction} {length : Nat} {f : Fault}
    (hdecode : Instruction.decode p.bytes s.context.pc = .ok (i, length))
    (hperform : (s.begin i).context.perform around i = .error f) : s.request? p = none := by
  cases hrequest : s.request? p with
  | none => rfl
  | some r =>
    obtain ⟨_, _, -, hperform'⟩ := perform_of_request around hrequest
    cases hdecode.symm.trans (request?_eq_some_iff.1 hrequest).1
    cases hperform.symm.trans hperform'

theorem request?_of_performed {i : Instruction} {length : Nat} {c : Context} {next : Next}
    (hdecode : Instruction.decode p.bytes s.context.pc = .ok (i, length))
    (hperform : (s.begin i).context.perform around i = .ok (c, next)) : s.request? p = next.request? := by
  apply Option.ext
  intro r
  constructor
  · intro hrequest
    obtain ⟨_, _, -, hperform'⟩ := perform_of_request around hrequest
    cases hdecode.symm.trans (request?_eq_some_iff.1 hrequest).1
    cases hperform.symm.trans hperform'
    rfl
  · intro hnext
    cases next with
    | write endpoint v =>
      cases hnext
      obtain rfl : i = .write := Context.allows_of_perform hperform
      obtain ⟨w, rest, hvalues, hw, -⟩ := Context.perform_write_eq_ok_iff.1 hperform
      obtain rfl : length = 1 := Instruction.length_of_decode hdecode
      exact request?_eq_some_iff.2 ⟨hdecode, w, rest, hvalues, hw⟩
    | _ => cases hnext

variable [Sink σ]

/-! ### One turn -/

/-- A turn leaves the sink as its call does, or as it was. -/
theorem sink_of_turn {ending : Option (Except Fault Ending)} (h : s.turn p around = (s', ending)) :
    s'.sink = (s.request? p).toList.foldl Sink.deliver s.sink := by
  rw [turn_eq_iff] at h
  cases h with
  | undecoded hdecode => rw [request?_of_undecoded hdecode]; rfl
  | failed hdecode hperform => rw [request?_of_failed hdecode hperform]; rfl
  | moved hdecode hperform hnext hle =>
    rw [request?_of_performed hdecode hperform, Next.request?_of_passed hnext]; rfl
  | left hdecode hperform hnext hlt =>
    rw [request?_of_performed hdecode hperform, Next.request?_of_passed hnext]; rfl
  | wrote hdecode hperform hpush => rw [request?_of_performed hdecode hperform]; rfl
  | unanswered hdecode hperform hpush => rw [request?_of_performed hdecode hperform]; rfl
  | stayed hdecode hperform => rw [request?_of_performed hdecode hperform]; rfl
  | changed hdecode hperform => rw [request?_of_performed hdecode hperform]; rfl

/-- A call is answered on the stack, in place of its operands, and the run goes on behind the write. -/
theorem turn_of_request {endpoint : UInt32} {v : Value} (h : s.request? p = some (endpoint, v))
    (hdepth : s.context.stack.depth ≤ s.context.stack.limit) :
    ∃ s' w rest, s.turn p around = (s', none) ∧ s.context.stack.values = v :: w :: rest ∧
      s'.context =
        { s.context with
          opcode := .write
          pc := s.context.pc + 1
          stack := { s.context.stack with values := .u8 (Sink.write s.sink endpoint v).code :: rest } } := by
  obtain ⟨w, rest, hvalues, hperform⟩ := perform_of_request around h
  have hroom := Stack.length_lt_of_pair hvalues hdepth
  have hpush : ({ s.begin .write with context := { (s.begin .write).context with
      stack := { s.context.stack with values := rest } } }.write endpoint v).2 = .ok _ := Context.push_of_room hroom
  exact ⟨_, w, rest, turn_eq_iff.2 (.wrote (request?_eq_some_iff.1 h).1 hperform hpush), hvalues, rfl⟩

/-- An answer always finds room. -/
theorem answer_ne_error (hdepth : s.context.stack.depth ≤ s.context.stack.limit) {i : Instruction} {length : Nat}
    (hdecode : Instruction.decode p.bytes s.context.pc = .ok (i, length)) {c : Context} {endpoint : UInt32} {v : Value}
    (hperform : (s.begin i).context.perform around i = .ok (c, .write endpoint v)) (f : Fault) :
    ({ s.begin i with context := c }.write endpoint v).2 ≠ .error f := by
  intro hpush
  have hunanswered := turn_eq_iff.2 (.unanswered hdecode hperform hpush)
  obtain ⟨s', _, _, hturn, -⟩ := turn_of_request (request?_of_performed hdecode hperform) hdepth
  cases hunanswered.symm.trans hturn

/-- What is wrong with the operands of a write. -/
inductive WriteFault (c : Context) : Fault → Prop
  | shallow (hdepth : c.stack.depth < 2) : WriteFault c (.stackUnderflow .write 2 c.stack.depth)
  | kind {v w : Value} {rest : List Value} (hvalues : c.stack.values = v :: w :: rest) (hw : w.kind.isInteger = false) :
    WriteFault c (.typeMismatch .write w.kind)

/-- A write that does not call the sink fails for its operands and leaves the sink as it was. -/
theorem turn_of_no_request {length : Nat} (hdecode : Instruction.decode p.bytes s.context.pc = .ok (.write, length))
    (h : s.request? p = none) :
    ∃ s' f, s.turn p around = (s', some (.error f)) ∧ s'.sink = s.sink ∧ WriteFault s.context f := by
  rcases hvalues : s.context.stack.values with _ | ⟨v, _ | ⟨w, rest⟩⟩
  case cons.cons =>
    have hw : w.word? = none := by simpa [request?, hdecode, hvalues] using h
    have hkind : w.kind.isInteger = false := by rw [← w.isSome_word?, hw]; rfl
    have hperform : (s.begin .write).context.perform around .write = _ := Context.perform_write_of_kind hvalues hw
    exact ⟨_, _, turn_eq_iff.2 (.failed hdecode hperform), rfl, .kind hvalues hkind⟩
  all_goals
    have hdepth : s.context.stack.depth < 2 := by simp [Stack.depth, hvalues]
    have hperform : (s.begin .write).context.perform around .write = _ := Context.perform_write_of_shallow hdepth
    exact ⟨_, _, turn_eq_iff.2 (.failed hdecode hperform), rfl, .shallow hdepth⟩

/-- The write that the turn from here makes, with the code of the answer. -/
def answered? (p : Program) (s : Progress σ) : Option Write :=
  (s.request? p).map fun r => ⟨r.1, r.2, (Sink.write s.sink r.1 r.2).code⟩

theorem write?_eq (s : Progress σ) : s.write? p around = s.answered? p := by
  unfold write? answered?
  cases hdecode : Instruction.decode p.bytes s.context.pc with
  | error e => rw [request?_of_undecoded hdecode]; rfl
  | ok decoded =>
    obtain ⟨i, length⟩ := decoded
    dsimp only
    cases hperform : (s.begin i).context.perform around i with
    | error f => rw [request?_of_failed hdecode hperform]; rfl
    | ok performed =>
      obtain ⟨c, next⟩ := performed
      rw [request?_of_performed hdecode hperform]
      cases next <;> rfl

/-! ### Whole runs -/

variable {taken : List (Progress σ)} {outcome : Progress σ × Except Fault Ending}

theorem Runs.sink_eq (h : s.Runs p around taken outcome) :
    outcome.1.sink = (taken.filterMap (request? p)).foldl Sink.deliver s.sink := by
  induction h with
  | @last s s' ending hturn =>
    rw [sink_of_turn hturn]
    cases hrequest : s.request? p <;> simp [hrequest]
  | @next s s' rest outcome hturn hrest ih =>
    rw [ih, sink_of_turn hturn]
    cases hrequest : s.request? p <;> simp [hrequest]

end Progress

namespace Program

/-- How the turns of a run, what it hands to its sink and what it leaves behind belong together. -/
structure SinkTrace [Sink σ] (p : Program) (around : Surroundings) (sink : σ) (taken : List (Progress σ))
    (writes : List Write) (report : Report σ) : Prop where
  /-- The writes are those of the turns that call the sink, each once and in their order. -/
  writes_eq : writes = taken.filterMap (Progress.answered? p)
  /-- What is left of the sink is what these calls have made of it, whatever the run comes to. -/
  sink_eq : report.sink = (taken.filterMap (Progress.request? p)).foldl Sink.deliver sink
  /-- A call is answered on the stack, and the run goes on behind the write. -/
  answered : ∀ s ∈ taken, ∀ endpoint v, s.request? p = some (endpoint, v) →
    ∃ s' w rest, s.turn p around = (s', none) ∧ [s, s'] <:+: taken ∧ s.context.stack.values = v :: w :: rest ∧
      s'.context =
        { s.context with
          opcode := .write
          pc := s.context.pc + 1
          stack := { s.context.stack with values := .u8 (Sink.write s.sink endpoint v).code :: rest } }
  /-- A write that does not call the sink ends the run, and fails for its operands. -/
  refused : ∀ s ∈ taken, ∀ length, Instruction.decode p.bytes s.context.pc = .ok (.write, length) →
    s.request? p = none →
      taken.getLast? = some s ∧ ∃ f, report.result = .error f ∧ Progress.WriteFault s.context f
  /-- The turn that ends the run does not call the sink. -/
  last : ∀ s, taken.getLast? = some s → s.request? p = none

variable [Sink σ]

/-- The writes of a run are those that are answered, in the order of its turns. -/
theorem writes_eq_answered {state : RuleState} {trigger : Option Trigger} {sink : σ} {clock : Clock} {config : Config} :
    p.writes state trigger sink clock config =
      (p.turns state trigger sink clock config).filterMap (Progress.answered? p) := by
  rw [writes_eq]
  exact congrArg (List.filterMap · _) (funext Progress.write?_eq)

/-- A run calls its sink exactly at the writes that find an integer below the top of the stack, with this and the top; no such write fails afterwards, and what was written stays written. -/
theorem sink_trace (p : Program) (state : RuleState) (trigger : Option Trigger) (sink : σ) (clock : Clock)
    (config : Config) :
    p.Runs state trigger sink clock config (p.turns state trigger sink clock config)
        (p.execute state trigger sink clock config) ∧
      p.SinkTrace ⟨state, clock⟩ sink (p.turns state trigger sink clock config)
        (p.writes state trigger sink clock config) (p.execute state trigger sink clock config) := by
  refine ⟨runs_execute, ?writes_eq, ?sink_eq, ?answered, ?refused, ?last⟩
  case writes_eq => exact writes_eq_answered
  case sink_eq =>
    rcases henter : p.entered state trigger sink config with ⟨s, f | ⟨⟩⟩
    · rw [execute_of_refused henter, turns_of_refused henter, Report.sink_ofEnding, sink_of_entered henter]
      rfl
    · rw [execute_of_begun henter, turns_of_begun henter, Report.sink_ofEnding, (Progress.runs_finish s).sink_eq,
        sink_of_entered henter]
  case answered =>
    intro s hs endpoint v hrequest
    obtain ⟨s', w, rest, hturn, hvalues, hcontext⟩ := Progress.turn_of_request hrequest (depth_le_of_turns s hs).2
    obtain ⟨_, _, -, hruns, -⟩ := begun_of_mem hs
    exact ⟨s', w, rest, hturn, hruns.infix_of_turn hs hturn, hvalues, hcontext⟩
  case refused =>
    intro s hs length hdecode hrequest
    obtain ⟨s', f, hturn, -, hfault⟩ := Progress.turn_of_no_request hdecode hrequest
    obtain ⟨_, outcome, -, hruns, hexecute⟩ := begun_of_mem hs
    obtain ⟨hlast, rfl⟩ := hruns.last_of_turn hs hturn
    rw [hexecute]
    exact ⟨hlast, f, rfl, hfault⟩
  case last =>
    intro s hlast
    have hs := List.mem_of_getLast? hlast
    obtain ⟨_, _, -, hruns, -⟩ := begun_of_mem hs
    cases hrequest : s.request? p with
    | none => rfl
    | some r =>
      obtain ⟨_, _, _, hturn, -⟩ := Progress.turn_of_request hrequest (depth_le_of_turns s hs).2
      cases hturn.symm.trans (hruns.turn_of_last hlast)

end Program

end RuleMachine
