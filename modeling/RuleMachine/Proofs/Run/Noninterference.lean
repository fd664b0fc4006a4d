import RuleMachine.Proofs.Run.Faults

/-!
# What a run does not look at

Each of the packet, the state and the clock enters a run through its own load instructions only. `effect_congr` says so for one instruction: what it comes to is the same for all that it does not look at. Two runs from the same entry of which the first executes none of the loads that would tell them apart therefore go side by side, turn by turn: they differ in the packet that the context carries and in what is logged, and in nothing that an instruction, the sink or the ending depends on.
-/

namespace RuleMachine

/-- The two are the same to the instruction. -/
structure Sight.Alike (seen seen' : Sight) (i : Instruction) : Prop where
  registers_eq : seen'.registers = seen.registers
  trigger_eq : i.loadsTrigger = true → seen'.trigger = seen.trigger
  current_eq : i = .loadState → seen'.state.current = seen.state.current
  dwell_eq : i = .loadDwell → seen'.state.dwell seen'.now = seen.state.dwell seen.now
  now_eq : i = .loadClock → seen'.now = seen.now

theorem Instruction.effect_congr {seen seen' : Sight} {i : Instruction} (h : seen.Alike seen' i)
    (operands : List Value) : i.effect seen' operands = i.effect seen operands := by
  obtain ⟨state, now, trigger, registers⟩ := seen
  obtain ⟨state', now', trigger', registers'⟩ := seen'
  obtain rfl : registers' = registers := h.registers_eq
  cases i
  case loadSourceAddress | loadSourceEndpoint | loadSourceValue =>
    obtain rfl : trigger' = trigger := h.trigger_eq rfl
    rfl
  case loadState =>
    have hcurrent : state'.current = state.current := h.current_eq rfl
    simp only [effect, Sight.value, hcurrent]
  case loadDwell =>
    have hdwell : state'.dwell now' = state.dwell now := h.dwell_eq rfl
    simp only [effect, Sight.value, hdwell]
  case loadClock =>
    have hnow : now' = now := h.now_eq rfl
    simp only [effect, Sight.value, hnow]
  case jump condition skip short => cases condition <;> rfl
  all_goals rfl

/-- The context with another packet, or with none. -/
def Context.withTrigger (trigger : Option Trigger) (c : Context) : Context := { c with trigger }

theorem Context.push_withTrigger (trigger : Option Trigger) (c : Context) (v : Value) :
    (c.withTrigger trigger).push v = (c.push v).map (withTrigger trigger) := by
  have hstack : (c.withTrigger trigger).stack = c.stack := rfl
  rw [push, push, hstack]
  cases c.stack.push v <;> rfl

theorem Context.perform_withTrigger {c : Context} {i : Instruction} {around around' : Surroundings}
    {trigger : Option Trigger} (hopcode : c.opcode = i.opcode) (hdepth : c.stack.depth ≤ c.stack.limit)
    (halike : (c.sight around).Alike ((c.withTrigger trigger).sight around') i) :
    (c.withTrigger trigger).perform around' i =
      (c.perform around i).map fun r => (r.1.withTrigger trigger, r.2) := by
  have heffect := Instruction.effect_congr halike (c.stack.values.take i.takes)
  rw [perform_eq hopcode hdepth, @perform_eq (c.withTrigger trigger) i around' hopcode hdepth]
  dsimp only [withTrigger] at heffect ⊢
  rw [heffect]
  cases i.effect (c.sight around) (c.stack.values.take i.takes) with
  | error f => rfl
  | ok e =>
    simp only [Except.bind, settle]
    split <;> rfl

variable {σ : Type} {p : Program} {around around' : Surroundings}

namespace Progress

/-- The same point of a run with another packet and another log. -/
def beside (trigger : Option Trigger) (log : Array Event) (s : Progress σ) : Progress σ :=
  ⟨s.context.withTrigger trigger, s.sink, log⟩

/-- With this packet and in these surroundings the turn from here sees what it sees as it is. -/
def Alike (p : Program) (around around' : Surroundings) (trigger : Option Trigger) (s : Progress σ) : Prop :=
  ∀ i length, Instruction.decode p.bytes s.context.pc = .ok (i, length) →
    (s.context.sight around).Alike ((s.context.withTrigger trigger).sight around') i

variable {s s' : Progress σ} {trigger : Option Trigger} {log : Array Event}

theorem perform_beside (log : Array Event) {i : Instruction} {length : Nat} {r : Except Fault (Context × Next)}
    (hdepth : s.context.stack.depth ≤ s.context.stack.limit) (halike : s.Alike p around around' trigger)
    (hdecode : Instruction.decode p.bytes s.context.pc = .ok (i, length))
    (hperform : (s.begin i).context.perform around i = r) :
    ((s.beside trigger log).begin i).context.perform around' i = r.map fun r => (r.1.withTrigger trigger, r.2) :=
  hperform ▸
    @Context.perform_withTrigger (s.begin i).context i around around' trigger rfl hdepth (halike i length hdecode)

variable [Sink σ]

/-- A turn is the same beside it. -/
theorem turn_beside (log : Array Event) (hdepth : s.context.stack.depth ≤ s.context.stack.limit)
    (halike : s.Alike p around around' trigger) {ending : Option (Except Fault Ending)}
    (h : s.turn p around = (s', ending)) :
    ∃ log', (s.beside trigger log).turn p around' = (s'.beside trigger log', ending) := by
  simp only [turn_eq_iff] at h ⊢
  cases h with
  | undecoded hdecode => exact ⟨log, .undecoded hdecode⟩
  | failed hdecode hperform =>
    have hbeside := perform_beside log hdepth halike hdecode hperform
    exact ⟨_, Turn.failed (s := s.beside trigger log) hdecode hbeside⟩
  | moved hdecode hperform hnext hle =>
    have hbeside := perform_beside log hdepth halike hdecode hperform
    exact ⟨_, Turn.moved (s := s.beside trigger log) hdecode hbeside hnext hle⟩
  | left hdecode hperform hnext hlt =>
    have hbeside := perform_beside log hdepth halike hdecode hperform
    exact ⟨_, Turn.left (s := s.beside trigger log) hdecode hbeside hnext hlt⟩
  | @wrote i length c c' endpoint v hdecode hperform hpush =>
    have hanswer := c.push_withTrigger trigger (.u8 (Sink.write s.sink endpoint v).code)
    have hpush : c.push (.u8 (Sink.write s.sink endpoint v).code) = .ok c' := hpush
    rw [hpush] at hanswer
    have hbeside := perform_beside log hdepth halike hdecode hperform
    exact ⟨_, Turn.wrote (s := s.beside trigger log) hdecode hbeside hanswer⟩
  | @unanswered i length c endpoint v f hdecode hperform hpush =>
    have hanswer := c.push_withTrigger trigger (.u8 (Sink.write s.sink endpoint v).code)
    have hpush : c.push (.u8 (Sink.write s.sink endpoint v).code) = .error f := hpush
    rw [hpush] at hanswer
    have hbeside := perform_beside log hdepth halike hdecode hperform
    exact ⟨_, Turn.unanswered (s := s.beside trigger log) hdecode hbeside hanswer⟩
  | stayed hdecode hperform =>
    have hbeside := perform_beside log hdepth halike hdecode hperform
    exact ⟨_, Turn.stayed (s := s.beside trigger log) hdecode hbeside⟩
  | changed hdecode hperform =>
    have hbeside := perform_beside log hdepth halike hdecode hperform
    exact ⟨_, Turn.changed (s := s.beside trigger log) hdecode hbeside⟩

/-! ### Whole runs -/

/-- A run is the same beside it, as long as no instruction in it looks at what differs; whatever is read off its turns without the packet and the log is the same too. -/
theorem Runs.beside {taken : List (Progress σ)} {outcome : Progress σ × Except Fault Ending}
    (h : s.Runs p around taken outcome) (hdepth : s.context.stack.depth ≤ s.context.stack.limit)
    (halike : ∀ t ∈ taken, t.Alike p around around' trigger) :
    ∃ taken' log', (s.beside trigger log).Runs p around' taken' (outcome.1.beside trigger log', outcome.2) ∧
      ∀ {α : Type} (read : Progress σ → Option α), (∀ t log, read (t.beside trigger log) = read t) →
        taken'.filterMap read = taken.filterMap read := by
  induction h generalizing log with
  | @last s s' ending hturn =>
    obtain ⟨log', hbeside⟩ := turn_beside log hdepth (halike s (List.mem_singleton_self s)) hturn
    refine ⟨[s.beside trigger log], log', .last hbeside, ?_⟩
    intro α read hread
    rw [List.filterMap_cons, List.filterMap_cons, hread]
  | @next s s' rest outcome hturn hrest ih =>
    obtain ⟨log₁, hbeside⟩ := turn_beside log hdepth (halike s List.mem_cons_self) hturn
    have hdepth' := (stack_of_turn hturn).depth_le hdepth
    obtain ⟨taken', log', hruns, hsame⟩ := @ih log₁ hdepth' fun t ht => halike t (List.mem_cons_of_mem s ht)
    refine ⟨s.beside trigger log :: taken', log', .next hbeside hruns, ?_⟩
    intro α read hread
    rw [List.filterMap_cons, List.filterMap_cons, hread, hsame read hread]

end Progress

/-- The state that a run ends in, if it changes the state. -/
def Outcome.target? : Outcome → Option UInt32
  | stayed _ => none
  | changed _ after => some after

theorem Report.target?_congr (state state' : RuleState) (clock clock' : Clock) (s s' : Progress σ)
    (ending : Except Fault Ending) :
    (Report.ofEnding state' clock' (s', ending)).result.map Outcome.target? =
      (Report.ofEnding state clock (s, ending)).result.map Outcome.target? := by
  rcases ending with f | ⟨⟩ | target <;> rfl

namespace Program

/-- What two runs may differ in without being told apart by the instructions that the first of them executes. -/
structure Unseen (executed : List Placed) (state state' : RuleState) (trigger trigger' : Option Trigger)
    (clock clock' : Clock) : Prop where
  trigger : trigger' = trigger ∨ ∀ a ∈ executed, a.instruction.loadsTrigger = false
  current : state'.current = state.current ∨ ∀ a ∈ executed, a.instruction ≠ .loadState
  dwell : state'.enteredAt = state.enteredAt ∧ state'.created = state.created ∨
    ∀ a ∈ executed, a.instruction ≠ .loadDwell
  /-- The clocks show the same where an instruction is executed that looks at them. -/
  clock : ∀ a ∈ executed, a.instruction = .loadDwell ∨ a.instruction = .loadClock →
    clock'.reading a.pc = clock.reading a.pc

variable {state state' : RuleState} {trigger trigger' : Option Trigger} {sink : σ} {clock clock' : Clock}
  {config config' : Config}

theorem entered_beside {s : Progress σ} {r : Except Fault Unit}
    (hentry : p.entryOffset (.ofTrigger trigger') = p.entryOffset (.ofTrigger trigger))
    (hlimit : config'.effectiveStackLimit = config.effectiveStackLimit)
    (h : p.entered state trigger sink config = (s, r)) :
    ∃ log, p.entered state' trigger' sink config' = (s.beside trigger' log, r) := by
  unfold entered Progress.enter at h ⊢
  rw [hentry, hlimit]
  split at h
  · cases h
    exact ⟨_, rfl⟩
  · dsimp only at h ⊢
    split at h <;> cases h <;> exact ⟨_, rfl⟩

variable [Sink σ]

theorem alike_of_unseen
    (h : Unseen (p.executed state trigger sink clock config) state state' trigger trigger' clock clock') :
    ∀ t ∈ p.turns state trigger sink clock config, t.Alike p ⟨state, clock⟩ ⟨state', clock'⟩ trigger' := by
  intro t ht i length hdecode
  have hplaced : (⟨t.context.pc, i, length⟩ : Placed) ∈ p.executed state trigger sink clock config :=
    List.mem_filterMap.2 ⟨t, ht, Progress.placed?_eq_some_iff.2 ⟨rfl, hdecode⟩⟩
  refine ⟨rfl, ?trigger, ?current, ?dwell, ?now⟩
  case trigger =>
    intro hi
    rcases h.trigger with heq | hnone
    · exact heq.trans (trigger_of_turns t ht).symm
    · exact absurd hi (by rw [hnone _ hplaced]; decide)
  case current =>
    intro hi
    rcases h.current with heq | hnone
    · exact heq
    · exact absurd hi (hnone _ hplaced)
  case dwell =>
    intro hi
    rcases h.dwell with ⟨hentered, hcreated⟩ | hnone
    · have hclock : clock'.reading t.context.pc = clock.reading t.context.pc := h.clock _ hplaced (.inl hi)
      simp only [Context.sight, Context.withTrigger, RuleState.dwell, RuleState.timestamp, hentered, hcreated, hclock]
    · exact absurd hi (hnone _ hplaced)
  case now =>
    intro hi
    exact h.clock _ hplaced (.inr hi)

/-- Two runs from the same entry, of which the first executes no load that would tell them apart, execute the same instructions, make the same writes and end the same way: with the same fault, both staying, or both changing to the same state. -/
theorem execute_noninterference (p : Program) {state state' : RuleState} {trigger trigger' : Option Trigger} (sink : σ)
    {clock clock' : Clock} {config config' : Config}
    (hentry : p.entryOffset (.ofTrigger trigger') = p.entryOffset (.ofTrigger trigger))
    (hlimit : config'.effectiveStackLimit = config.effectiveStackLimit)
    (hunseen : Unseen (p.executed state trigger sink clock config) state state' trigger trigger' clock clock') :
    p.executed state' trigger' sink clock' config' = p.executed state trigger sink clock config ∧
      p.writes state' trigger' sink clock' config' = p.writes state trigger sink clock config ∧
      (p.execute state' trigger' sink clock' config').sink = (p.execute state trigger sink clock config).sink ∧
      (p.execute state' trigger' sink clock' config').result.map Outcome.target? =
        (p.execute state trigger sink clock config).result.map Outcome.target? := by
  have halike := alike_of_unseen hunseen
  rw [writes_eq_answered, writes_eq_answered, executed, executed]
  rcases henter : p.entered state trigger sink config with ⟨s, r⟩
  obtain ⟨log, henter'⟩ : ∃ log, p.entered state' trigger' sink config' = (s.beside trigger' log, r) :=
    entered_beside hentry hlimit henter
  rcases r with f | ⟨⟩
  · rw [turns_of_refused henter, turns_of_refused henter', execute_of_refused henter, execute_of_refused henter']
    refine ⟨rfl, rfl, ?_, Report.target?_congr _ _ _ _ _ _ _⟩
    rw [Report.sink_ofEnding, Report.sink_ofEnding]
    rfl
  · rw [turns_of_begun henter] at halike ⊢
    obtain ⟨taken', log', hruns, hsame⟩ := (Progress.runs_finish s).beside (depth_le_of_entered henter) halike
    obtain ⟨rfl, hfinish⟩ := Progress.runs_iff.1 hruns
    rw [turns_of_begun henter', execute_of_begun henter, execute_of_begun henter', ← hfinish]
    refine ⟨hsame _ fun _ _ => rfl, hsame _ fun _ _ => rfl, ?_, Report.target?_congr _ _ _ _ _ _ _⟩
    rw [Report.sink_ofEnding]
    exact (Report.sink_ofEnding state clock (s.finish p ⟨state, clock⟩).1 (s.finish p ⟨state, clock⟩).2).symm

/-- Without a packet and with one, in another state and under another clock. -/
theorem execute_noninterference_change :
    (Sample.change.execute Sample.state none LoggingSink.mk Sample.clock {}).result = .ok (.changed 0 7) ∧
      (Sample.change.execute ⟨3, 1, Sample.now⟩ (some ⟨Vector.replicate 16 0, 2, .bool true⟩) LoggingSink.mk
        Sample.now {}).result.map Outcome.target? = .ok (some 7) := by
  have hresult : (Sample.change.execute Sample.state none LoggingSink.mk Sample.clock {}).result =
      .ok (.changed 0 7) := by cbv
  have hexecuted : Sample.change.executed Sample.state none LoggingSink.mk Sample.clock {} =
      [⟨5, .loadU8 7, 2⟩, ⟨7, .changeState, 1⟩] := by cbv
  have hunseen : Unseen (Sample.change.executed Sample.state none LoggingSink.mk Sample.clock {}) Sample.state
      ⟨3, 1, Sample.now⟩ none (some ⟨Vector.replicate 16 0, 2, .bool true⟩) Sample.clock Sample.now := by
    rw [hexecuted]
    exact ⟨.inr (by simp [Instruction.loadsTrigger]), .inr (by simp), .inr (by simp), by simp⟩
  refine ⟨hresult, (execute_noninterference _ LoggingSink.mk (by rfl) (by rfl) hunseen).2.2.2.trans ?_⟩
  rw [hresult]
  rfl

end Program

end RuleMachine
