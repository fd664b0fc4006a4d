import RuleMachine.Proofs.Run.Effect
import RuleMachine.Proofs.Run.Writes

/-!
# Raising the limit of the stack

The limit of the stack decides whether results find room and nothing else. A run that never lacks room therefore goes through the same contexts under a higher limit, turn by turn, and a run that overflows does so up to the turn in which it does; whatever it had written until then is written under the higher limit as well.
-/

namespace RuleMachine

/-- The stack under another limit. -/
def Context.withLimit (limit : Nat) (c : Context) : Context := { c with stack := { c.stack with limit } }

namespace Context

variable {c c' : Context} {i : Instruction} {around : Surroundings} {next : Next} {limit : Nat}

theorem perform_withLimit (hopcode : c.opcode = i.opcode) (hdepth : c.stack.depth ≤ c.stack.limit)
    (hlimit : c.stack.limit ≤ limit) (h : c.perform around i = .ok (c', next)) :
    (c.withLimit limit).perform around i = .ok (c'.withLimit limit, next) := by
  obtain ⟨e, heffect, hnext, hroom, rfl⟩ := (perform_eq_ok_iff hopcode hdepth).1 h
  exact (@perform_eq_ok_iff (c.withLimit limit) _ i around next hopcode (Nat.le_trans hdepth hlimit)).2
    ⟨e, heffect, hnext, Nat.le_trans hroom hlimit, rfl⟩

/-- What is not for lack of room is refused under any limit. -/
theorem perform_withLimit_of_error (hopcode : c.opcode = i.opcode) (hdepth : c.stack.depth ≤ c.stack.limit)
    (hlimit : c.stack.limit ≤ limit) {f : Fault} (hf : ∀ n, f ≠ .stackOverflow n)
    (h : c.perform around i = .error f) :
    (c.withLimit limit).perform around i = .error f := by
  rcases (perform_eq_error_iff hopcode hdepth).1 h with heffect | ⟨-, -, hoverflow⟩
  · exact (@perform_eq_error_iff (c.withLimit limit) i around hopcode (Nat.le_trans hdepth hlimit) f).2 (.inl heffect)
  · exact absurd hoverflow (hf _)

theorem push_withLimit {v : Value} (hlimit : c.stack.limit ≤ limit) (h : c.push v = .ok c') :
    (c.withLimit limit).push v = .ok (c'.withLimit limit) := by
  obtain ⟨hroom, rfl⟩ := push_eq_ok_iff.1 h
  have hroom' : (c.withLimit limit).stack.depth < (c.withLimit limit).stack.limit := Nat.lt_of_lt_of_le hroom hlimit
  exact push_of_room hroom'

theorem overflow_of_push {v : Value} {f : Fault} (h : c.push v = .error f) : f = .stackOverflow c.stack.limit := by
  unfold push Stack.push at h
  split at h <;> cases h
  rfl

end Context

variable {σ : Type} {p : Program} {around : Surroundings}

namespace Progress

/-- The run under another limit of the stack. -/
def withLimit (limit : Nat) (s : Progress σ) : Progress σ := { s with context := s.context.withLimit limit }

variable {s s' : Progress σ} {limit : Nat}

theorem perform_begin_withLimit {i : Instruction} {c : Context} {next : Next}
    (hdepth : s.context.stack.depth ≤ s.context.stack.limit) (hlimit : s.context.stack.limit ≤ limit)
    (h : (s.begin i).context.perform around i = .ok (c, next)) :
    ((s.withLimit limit).begin i).context.perform around i = .ok (c.withLimit limit, next) :=
  @Context.perform_withLimit (s.begin i).context c i around next limit rfl hdepth hlimit h

variable [Sink σ]

/-- The sink is called as before. -/
theorem answered?_withLimit (taken : List (Progress σ)) :
    (taken.map (withLimit limit)).filterMap (answered? p) = taken.filterMap (answered? p) := by
  rw [List.filterMap_map]
  rfl

/-- A turn that does not overflow the stack is the same under a higher limit. -/
theorem turn_withLimit {ending : Option (Except Fault Ending)} (hdepth : s.context.stack.depth ≤ s.context.stack.limit)
    (hlimit : s.context.stack.limit ≤ limit) (hending : ∀ n, ending ≠ some (.error (.stackOverflow n)))
    (h : s.turn p around = (s', ending)) :
    (s.withLimit limit).turn p around = (s'.withLimit limit, ending) := by
  rw [turn_eq_iff] at h ⊢
  cases h with
  | undecoded hdecode => exact .undecoded hdecode
  | @failed i length f hdecode hperform =>
    have hf : ∀ n, f ≠ .stackOverflow n := by
      rintro n rfl
      exact hending n rfl
    exact .failed hdecode
      (@Context.perform_withLimit_of_error (s.begin i).context i _ _ rfl hdepth hlimit f hf hperform)
  | moved hdecode hperform hnext hle =>
    have hraised := perform_begin_withLimit hdepth hlimit hperform
    exact Turn.moved (s := s.withLimit limit) hdecode hraised hnext hle
  | left hdecode hperform hnext hlt =>
    have hraised := perform_begin_withLimit hdepth hlimit hperform
    exact .left hdecode hraised hnext hlt
  | @wrote i _ c c' endpoint v hdecode hperform hpush =>
    have hraised := perform_begin_withLimit hdepth hlimit hperform
    have hkept : c.stack.limit = s.context.stack.limit := (Context.reaches_of_perform hperform).stack.limit_eq
    have hanswer : c.push (.u8 (Sink.write s.sink endpoint v).code) = .ok c' := hpush
    exact Turn.wrote (s := s.withLimit limit) hdecode hraised (Context.push_withLimit (hkept ▸ hlimit) hanswer)
  | unanswered hdecode hperform hpush =>
    cases Context.overflow_of_push hpush
    exact absurd rfl (hending _)
  | stayed hdecode hperform => exact .stayed hdecode (perform_begin_withLimit hdepth hlimit hperform)
  | changed hdecode hperform => exact .changed hdecode (perform_begin_withLimit hdepth hlimit hperform)

/-! ### Whole runs -/

variable {taken : List (Progress σ)} {outcome : Progress σ × Except Fault Ending}

/-- A run that does not overflow the stack is the same under a higher limit. -/
theorem Runs.withLimit (h : s.Runs p around taken outcome) (hdepth : s.context.stack.depth ≤ s.context.stack.limit)
    (hlimit : s.context.stack.limit ≤ limit) (hending : ∀ n, outcome.2 ≠ .error (.stackOverflow n)) :
    (s.withLimit limit).Runs p around (taken.map (withLimit limit)) (outcome.1.withLimit limit, outcome.2) := by
  induction h with
  | last hturn =>
    refine .last (turn_withLimit hdepth hlimit ?_ hturn)
    intro n heq
    exact hending n (Option.some.inj heq)
  | next hturn hrest ih =>
    have hstack := stack_of_turn hturn
    have hraised := turn_withLimit hdepth hlimit (fun n heq => by cases heq) hturn
    exact .next hraised (ih (hstack.depth_le hdepth) (hstack.limit_eq ▸ hlimit) hending)

/-- A run goes through its turns under a higher limit too, and may go on where it overflowed. -/
theorem Runs.prefix_withLimit (h : s.Runs p around taken outcome)
    (hdepth : s.context.stack.depth ≤ s.context.stack.limit) (hlimit : s.context.stack.limit ≤ limit) :
    taken.map (Progress.withLimit limit) <+: (s.withLimit limit).turns p around := by
  induction h with
  | @last s s' ending hturn =>
    obtain ⟨rest, hturns⟩ := List.head?_eq_some_iff.1 (runs_finish (s.withLimit limit)).head?_eq
    rw [hturns]
    exact ⟨rest, rfl⟩
  | next hturn hrest ih =>
    have hstack := stack_of_turn hturn
    have hraised := turn_withLimit hdepth hlimit (fun n heq => by cases heq) hturn
    rw [turns_of_next hraised, List.map_cons, List.cons_prefix_cons]
    exact ⟨rfl, ih (hstack.depth_le hdepth) (hstack.limit_eq ▸ hlimit)⟩

omit [Sink σ] in
theorem enter_withLimit {entry : Entry} {state : UInt32} {r : Except Fault Unit}
    (h : s.enter p entry state = (s', r)) : (s.withLimit limit).enter p entry state = (s'.withLimit limit, r) := by
  unfold enter at h ⊢
  split at h
  · cases h
    rfl
  · dsimp only at h ⊢
    split at h <;> cases h <;> rfl

end Progress

theorem Report.ofEnding_withLimit (state : RuleState) (clock : Clock) (limit : Nat) (s : Progress σ)
    (ending : Except Fault Ending) :
    Report.ofEnding state clock (s.withLimit limit, ending) = .ofEnding state clock (s, ending) := by
  rcases ending with f | ⟨⟩ | target <;> rfl

namespace Program

variable {state : RuleState} {trigger : Option Trigger} {sink : σ} {clock : Clock} {config config' : Config}

theorem entered_withLimit {s : Progress σ} {r : Except Fault Unit}
    (h : p.entered state trigger sink config = (s, r)) :
    p.entered state trigger sink config' = (s.withLimit config'.effectiveStackLimit, r) := by
  have hstart : Context.start trigger config'.effectiveStackLimit =
      (Context.start trigger config.effectiveStackLimit).withLimit config'.effectiveStackLimit := by
    simp [Context.start, Context.withLimit, Stack.empty, Config.effectiveStackLimit]
  rw [entered, hstart]
  exact Progress.enter_withLimit h

variable [Sink σ]

/-- Under a higher limit of the stack a run that has not overflowed is the same in all that is left of it, and one that has overflowed has made the same writes before. -/
theorem execute_of_limit_le (p : Program) (state : RuleState) (trigger : Option Trigger) (sink : σ) (clock : Clock)
    {config config' : Config} (h : config.stackLimit ≤ config'.stackLimit) :
    ((∀ limit, (p.execute state trigger sink clock config).result ≠ .error (.stackOverflow limit)) →
        p.execute state trigger sink clock config' = p.execute state trigger sink clock config ∧
          p.writes state trigger sink clock config' = p.writes state trigger sink clock config) ∧
      p.writes state trigger sink clock config <+: p.writes state trigger sink clock config' := by
  rw [writes_eq_answered, writes_eq_answered]
  rcases henter : p.entered state trigger sink config with ⟨s, r⟩
  have henter' : p.entered state trigger sink config' = _ := entered_withLimit henter
  rcases r with f | ⟨⟩
  · rw [turns_of_refused henter, turns_of_refused henter', execute_of_refused henter, execute_of_refused henter',
      Report.ofEnding_withLimit]
    exact ⟨fun _ => ⟨rfl, rfl⟩, List.prefix_refl _⟩
  · have hdepth := depth_le_of_entered henter
    have hlimit : s.context.stack.limit ≤ config'.effectiveStackLimit := by
      rw [stack_of_entered henter]
      exact Nat.le_min.2 ⟨Nat.le_trans (Nat.min_le_left _ _) h, Nat.min_le_right _ _⟩
    have hruns : s.Runs p ⟨state, clock⟩ _ _ := Progress.runs_finish s
    rw [turns_of_begun henter, turns_of_begun henter', execute_of_begun henter, execute_of_begun henter']
    refine ⟨?_, ?_⟩
    · intro hresult
      have hending : ∀ n, (s.finish p ⟨state, clock⟩).2 ≠ .error (.stackOverflow n) := by
        intro n hoverflow
        exact hresult n (Report.result_of_error hoverflow)
      obtain ⟨hturns, hfinish⟩ := Progress.runs_iff.1 (hruns.withLimit hdepth hlimit hending)
      rw [← hturns, ← hfinish, Report.ofEnding_withLimit, Progress.answered?_withLimit]
      exact ⟨rfl, rfl⟩
    · have hprefix := (hruns.prefix_withLimit hdepth hlimit).filterMap (Progress.answered? p)
      rwa [Progress.answered?_withLimit] at hprefix

/-- A run that fills a stack of one place, with another place. -/
theorem execute_of_limit_le_change :
    (Sample.change.execute Sample.state none LoggingSink.mk Sample.clock { stackLimit := 1 }).result =
        .ok (.changed 0 7) ∧
      Sample.change.execute Sample.state none LoggingSink.mk Sample.clock { stackLimit := 2 } =
        Sample.change.execute Sample.state none LoggingSink.mk Sample.clock { stackLimit := 1 } := by
  have hresult : (Sample.change.execute Sample.state none LoggingSink.mk Sample.clock { stackLimit := 1 }).result =
      .ok (.changed 0 7) := by cbv
  refine ⟨hresult, ((execute_of_limit_le _ _ _ _ _ (by decide)).1 ?_).1⟩
  intro limit hoverflow
  cases hresult.symm.trans hoverflow

end Program

end RuleMachine
