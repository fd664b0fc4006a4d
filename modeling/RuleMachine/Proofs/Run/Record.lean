import RuleMachine.Proofs.Run.Trace

/-!
# The writes of a run

A recording sink answers as the sink inside it does, so a run over it is the run over that sink with a record beside it: `forget` takes every turn of the one to a turn of the other. What is recorded is then read off the turns. A turn makes at most one write, and it is the write that the instruction asks for.
-/

namespace RuleMachine

variable {σ : Type}

/-- The run with the record left out. -/
def Progress.forget (s : Progress (Recorded σ)) : Progress σ := { s with sink := s.sink.sink }

/-- What is left behind with the record left out. -/
def Report.forget (r : Report (Recorded σ)) : Report σ := { r with sink := r.sink.sink }

@[simp] theorem Progress.context_forget (s : Progress (Recorded σ)) : s.forget.context = s.context := rfl

@[simp] theorem Progress.begin_forget (s : Progress (Recorded σ)) (i : Instruction) :
    s.forget.begin i = (s.begin i).forget := rfl

@[simp] theorem Progress.sink_forget (s : Progress (Recorded σ)) : s.forget.sink = s.sink.sink := rfl

@[simp] theorem Progress.sink_begin (s : Progress σ) (i : Instruction) : (s.begin i).sink = s.sink := rfl

@[simp] theorem Progress.sink_write [Sink σ] (s : Progress σ) (endpoint : UInt32) (v : Value) :
    (s.write endpoint v).1.sink = (Sink.write s.sink endpoint v).sink := rfl

@[simp] theorem Recorded.record_write [Sink σ] (r : Recorded σ) (endpoint : UInt32) (v : Value) :
    (Sink.write r endpoint v).sink.record = ⟨endpoint, v, (Sink.write r.sink endpoint v).code⟩ :: r.record := rfl

theorem Report.forget_ofEnding (state : RuleState) (clock : Clock) (s : Progress (Recorded σ))
    (ending : Except Fault Ending) :
    (Report.ofEnding state clock (s, ending)).forget = .ofEnding state clock (s.forget, ending) := by
  rcases ending with f | ⟨⟩ | target <;> rfl

variable [Sink σ] {p : Program} {around : Surroundings}

namespace Progress

/-- The write that the turn from here makes, with the answer it gets, if it makes one. -/
def write? (p : Program) (around : Surroundings) (s : Progress σ) : Option Write :=
  match Instruction.decode p.bytes s.context.pc with
  | .error _ => none
  | .ok (i, _) =>
    match (s.begin i).context.perform around i with
    | .ok (_, .write endpoint v) => some ⟨endpoint, v, (Sink.write s.sink endpoint v).code⟩
    | _ => none

/-! ### Leaving the record out -/

theorem turn_forget {s s' : Progress (Recorded σ)} {ending : Option (Except Fault Ending)}
    (h : s.turn p around = (s', ending)) : s.forget.turn p around = (s'.forget, ending) := by
  rw [turn_eq_iff] at h ⊢
  cases h with
  | undecoded hdecode => exact .undecoded hdecode
  | failed hdecode hperform => exact .failed hdecode hperform
  | moved hdecode hperform hnext hle => exact .moved hdecode hperform hnext hle
  | left hdecode hperform hnext hlt => exact .left hdecode hperform hnext hlt
  | wrote hdecode hperform hpush => exact .wrote hdecode hperform hpush
  | unanswered hdecode hperform hpush => exact .unanswered hdecode hperform hpush
  | stayed hdecode hperform => exact .stayed hdecode hperform
  | changed hdecode hperform => exact .changed hdecode hperform

theorem Runs.forget {s s' : Progress (Recorded σ)} {taken : List (Progress (Recorded σ))} {ending : Except Fault Ending}
    (h : s.Runs p around taken (s', ending)) :
    s.forget.Runs p around (taken.map Progress.forget) (s'.forget, ending) := by
  generalize houtcome : (s', ending) = outcome at h
  induction h with
  | last hturn =>
    cases houtcome
    exact .last (turn_forget hturn)
  | next hturn _ ih => exact .next (turn_forget hturn) (ih houtcome)

omit [Sink σ] in
theorem enter_forget {entry : Entry} {state : UInt32} {s s' : Progress (Recorded σ)} {r : Except Fault Unit}
    (h : s.enter p entry state = (s', r)) : s.forget.enter p entry state = (s'.forget, r) := by
  unfold enter at h ⊢
  split at h
  · cases h
    rfl
  · dsimp only at h ⊢
    split at h <;> cases h <;> rfl

/-! ### What is recorded -/

theorem record_of_turn {s s' : Progress (Recorded σ)} {ending : Option (Except Fault Ending)}
    (h : s.turn p around = (s', ending)) :
    s'.sink.record = (s.forget.write? p around).toList ++ s.sink.record := by
  rw [turn_eq_iff] at h
  cases h with
  | undecoded hdecode => simp [write?, hdecode]
  | failed hdecode hperform => simp [write?, hdecode, hperform]
  | @moved _ _ _ next _ hdecode hperform hnext hle =>
    cases next <;> cases hnext <;> simp [write?, hdecode, hperform]
  | @left _ _ _ next _ hdecode hperform hnext hlt =>
    cases next <;> cases hnext <;> simp [write?, hdecode, hperform]
  | wrote hdecode hperform hpush =>
    simp [write?, hdecode, hperform]
  | unanswered hdecode hperform hpush =>
    simp [write?, hdecode, hperform]
  | stayed hdecode hperform => simp [write?, hdecode, hperform]
  | changed hdecode hperform => simp [write?, hdecode, hperform]

theorem Runs.writes_eq {s s' : Progress (Recorded σ)} {taken : List (Progress (Recorded σ))} {ending : Except Fault Ending}
    (h : s.Runs p around taken (s', ending)) :
    s'.sink.writes = s.sink.writes ++ (taken.map Progress.forget).filterMap (write? p around) := by
  generalize houtcome : (s', ending) = outcome at h
  induction h with
  | @last s _ _ hturn =>
    cases houtcome
    rw [Recorded.writes, record_of_turn hturn]
    simp only [Recorded.writes, List.map_cons, List.map_nil, List.filterMap_cons]
    cases s.forget.write? p around <;> simp
  | @next s _ _ _ hturn _ ih =>
    rw [ih houtcome, Recorded.writes, record_of_turn hturn]
    simp only [Recorded.writes, List.map_cons, List.filterMap_cons]
    cases s.forget.write? p around <;> simp

end Progress

namespace Program

/-- The writes that the run makes, in the order in which it makes them. -/
def writes (p : Program) (state : RuleState) (trigger : Option Trigger) (sink : σ) (clock : Clock) (config : Config) :
    List Write :=
  (p.execute state trigger (⟨sink, []⟩ : Recorded σ) clock config).sink.writes

variable {state : RuleState} {trigger : Option Trigger} {sink : σ} {clock : Clock} {config : Config}

omit [Sink σ] in
theorem entered_forget {record : List Write} {s : Progress (Recorded σ)} {r : Except Fault Unit}
    (h : p.entered state trigger (⟨sink, record⟩ : Recorded σ) config = (s, r)) :
    p.entered state trigger sink config = (s.forget, r) :=
  Progress.enter_forget h

/-- A run over a recording sink is the run over the sink inside it. -/
theorem Runs.forget {record : List Write} {taken : List (Progress (Recorded σ))} {report : Report (Recorded σ)}
    (h : p.Runs state trigger (⟨sink, record⟩ : Recorded σ) clock config taken report) :
    p.Runs state trigger sink clock config (taken.map Progress.forget) report.forget := by
  cases h with
  | refused henter =>
    rw [Report.forget_ofEnding]
    exact .refused (entered_forget henter)
  | @begun _ _ outcome henter hruns =>
    rw [Report.forget_ofEnding]
    exact .begun (entered_forget henter) hruns.forget

theorem turns_forget (record : List Write) :
    p.turns state trigger sink clock config
      = (p.turns state trigger (⟨sink, record⟩ : Recorded σ) clock config).map Progress.forget :=
  (runs_iff.1 runs_execute.forget).1.symm

theorem execute_forget (record : List Write) :
    (p.execute state trigger (⟨sink, record⟩ : Recorded σ) clock config).forget
      = p.execute state trigger sink clock config :=
  (runs_iff.1 runs_execute.forget).2

theorem Runs.writes_eq {record : List Write} {taken : List (Progress (Recorded σ))} {report : Report (Recorded σ)}
    (h : p.Runs state trigger (⟨sink, record⟩ : Recorded σ) clock config taken report) :
    report.sink.writes =
      record.reverse ++ (taken.map Progress.forget).filterMap (Progress.write? p ⟨state, clock⟩) := by
  cases h with
  | refused henter =>
    rw [Report.sink_ofEnding, sink_of_entered henter, Recorded.writes, List.map_nil, List.filterMap_nil, List.append_nil]
  | begun henter hruns =>
    rw [Report.sink_ofEnding, hruns.writes_eq, sink_of_entered henter, Recorded.writes]

/-- The writes of a run are those of its turns. -/
theorem writes_eq :
    p.writes state trigger sink clock config
      = (p.turns state trigger sink clock config).filterMap (Progress.write? p ⟨state, clock⟩) := by
  have hruns : p.Runs state trigger (⟨sink, []⟩ : Recorded σ) clock config _ _ := runs_execute
  have hwrites := hruns.writes_eq
  rw [← turns_forget, List.reverse_nil, List.nil_append] at hwrites
  exact hwrites

end Program

end RuleMachine
