import RuleMachine.Run.Basic

/-!
# The turns of a run

What a turn can do is said once, in `Turn`, with the conditions under which it does it. A run is a finite sequence of turns: `Runs` is that sequence as a relation, each turn going on where the last one led, and `turns` computes it. What holds of a whole run is proved by induction on the relation from what one turn does.
-/

namespace RuleMachine

/-- The bytes that are passed over after the instruction, where the run goes on without writing. -/
def Next.passed? : Next → Option Nat
  | advance => some 0
  | skip bytes => some bytes.toNat
  | _ => none

variable {σ : Type}

theorem Program.checkPc_of_le {p : Program} {pc : Nat} (h : pc ≤ p.size) : p.checkPc pc = .ok () := if_pos h

theorem Program.checkPc_of_lt {p : Program} {pc : Nat} (h : p.size < pc) :
    p.checkPc pc = .error (.pcOutOfRange pc p.size) :=
  if_neg (Nat.not_le.2 h)

namespace Progress

theorem goTo_of_le {p : Program} {s : Progress σ} {c : Context} {pc : Nat} (h : pc ≤ p.size) :
    s.goTo p c pc = ({ s with context := { c with pc } }, none) := by
  rw [goTo, p.checkPc_of_le h]

theorem goTo_of_lt {p : Program} {s : Progress σ} {c : Context} {pc : Nat} (h : p.size < pc) :
    s.goTo p c pc = (s, some (.error (.pcOutOfRange pc p.size))) := by
  rw [goTo, p.checkPc_of_lt h]

variable [Sink σ] {p : Program} {around : Surroundings}

/-- A turn from `s` leaves this and ends the run so, if it ends it. -/
inductive Turn (p : Program) (around : Surroundings) (s : Progress σ) : Progress σ → Option (Except Fault Ending) → Prop
  | undecoded {e : CodeError} (hdecode : Instruction.decode p.bytes s.context.pc = .error e) :
    Turn p around s s (some (.error (.malformed e)))
  | failed {i : Instruction} {length : Nat} {f : Fault}
      (hdecode : Instruction.decode p.bytes s.context.pc = .ok (i, length))
      (hperform : (s.begin i).context.perform around i = .error f) :
    Turn p around s (s.begin i) (some (.error f))
  | moved {i : Instruction} {length : Nat} {c : Context} {next : Next} {bytes : Nat}
      (hdecode : Instruction.decode p.bytes s.context.pc = .ok (i, length))
      (hperform : (s.begin i).context.perform around i = .ok (c, next)) (hnext : next.passed? = some bytes)
      (hle : s.context.pc + length + bytes ≤ p.size) :
    Turn p around s { s.begin i with context := { c with pc := s.context.pc + length + bytes } } none
  | left {i : Instruction} {length : Nat} {c : Context} {next : Next} {bytes : Nat}
      (hdecode : Instruction.decode p.bytes s.context.pc = .ok (i, length))
      (hperform : (s.begin i).context.perform around i = .ok (c, next)) (hnext : next.passed? = some bytes)
      (hlt : p.size < s.context.pc + length + bytes) :
    Turn p around s (s.begin i) (some (.error (.pcOutOfRange (s.context.pc + length + bytes) p.size)))
  | wrote {i : Instruction} {length : Nat} {c c' : Context} {endpoint : UInt32} {v : Value}
      (hdecode : Instruction.decode p.bytes s.context.pc = .ok (i, length))
      (hperform : (s.begin i).context.perform around i = .ok (c, .write endpoint v))
      (hpush : ({ s.begin i with context := c }.write endpoint v).2 = .ok c') :
    Turn p around s
      { ({ s.begin i with context := c }.write endpoint v).1 with context := { c' with pc := s.context.pc + length } } none
  | unanswered {i : Instruction} {length : Nat} {c : Context} {endpoint : UInt32} {v : Value} {f : Fault}
      (hdecode : Instruction.decode p.bytes s.context.pc = .ok (i, length))
      (hperform : (s.begin i).context.perform around i = .ok (c, .write endpoint v))
      (hpush : ({ s.begin i with context := c }.write endpoint v).2 = .error f) :
    Turn p around s ({ s.begin i with context := c }.write endpoint v).1 (some (.error f))
  | stayed {i : Instruction} {length : Nat} {c : Context}
      (hdecode : Instruction.decode p.bytes s.context.pc = .ok (i, length))
      (hperform : (s.begin i).context.perform around i = .ok (c, .stay)) :
    Turn p around s (s.begin i) (some (.ok .stay))
  | changed {i : Instruction} {length : Nat} {c : Context} {state : UInt32}
      (hdecode : Instruction.decode p.bytes s.context.pc = .ok (i, length))
      (hperform : (s.begin i).context.perform around i = .ok (c, .change state)) :
    Turn p around s (s.begin i) (some (.ok (.change state)))

theorem turn_cases (p : Program) (around : Surroundings) (s : Progress σ) :
    Turn p around s (s.turn p around).1 (s.turn p around).2 := by
  unfold turn
  cases hdecode : Instruction.decode p.bytes s.context.pc with
  | error e => exact .undecoded hdecode
  | ok decoded =>
    obtain ⟨i, length⟩ := decoded
    dsimp only
    cases hperform : (s.begin i).context.perform around i with
    | error f => exact .failed hdecode hperform
    | ok performed =>
      obtain ⟨c, next⟩ := performed
      cases next with
      | advance =>
        have hle : s.context.pc + length ≤ p.size := (Instruction.decode_bounds hdecode).2
        dsimp only
        rw [goTo_of_le hle]
        exact .moved hdecode hperform rfl hle
      | skip bytes =>
        dsimp only
        by_cases hle : s.context.pc + length + bytes.toNat ≤ p.size
        · rw [goTo_of_le hle]
          exact .moved hdecode hperform rfl hle
        · rw [goTo_of_lt (Nat.not_le.1 hle)]
          exact .left hdecode hperform rfl (Nat.not_le.1 hle)
      | write endpoint v =>
        dsimp only
        split
        · next s' c' hwrite =>
          have hsink : ({ s.begin i with context := c }.write endpoint v).1 = s' := congrArg Prod.fst hwrite
          have hpush : ({ s.begin i with context := c }.write endpoint v).2 = .ok c' := congrArg Prod.snd hwrite
          rw [goTo_of_le (Instruction.decode_bounds hdecode).2, ← hsink]
          exact .wrote hdecode hperform hpush
        · next s' f hwrite =>
          have hsink : ({ s.begin i with context := c }.write endpoint v).1 = s' := congrArg Prod.fst hwrite
          have hpush : ({ s.begin i with context := c }.write endpoint v).2 = .error f := congrArg Prod.snd hwrite
          rw [← hsink]
          exact .unanswered hdecode hperform hpush
      | stay => exact .stayed hdecode hperform
      | change state => exact .changed hdecode hperform

theorem turn_of_passed {s : Progress σ} {i : Instruction} {length bytes : Nat} {c : Context} {next : Next}
    (hdecode : Instruction.decode p.bytes s.context.pc = .ok (i, length))
    (hperform : (s.begin i).context.perform around i = .ok (c, next)) (hnext : next.passed? = some bytes) :
    s.turn p around = (s.begin i).goTo p c (s.context.pc + length + bytes) := by
  cases next with
  | advance =>
    cases hnext
    simp only [turn, hdecode, hperform, Nat.add_zero]
  | skip n =>
    cases hnext
    simp only [turn, hdecode, hperform]
  | write | stay | change => cases hnext

theorem turn_eq_iff {s s' : Progress σ} {ending : Option (Except Fault Ending)} :
    s.turn p around = (s', ending) ↔ Turn p around s s' ending := by
  constructor
  · intro h
    have hcases := turn_cases p around s
    rwa [h] at hcases
  · intro h
    cases h with
    | undecoded hdecode => simp only [turn, hdecode]
    | failed hdecode hperform => simp only [turn, hdecode, hperform]
    | moved hdecode hperform hnext hle => exact (turn_of_passed hdecode hperform hnext).trans (goTo_of_le hle)
    | left hdecode hperform hnext hlt => exact (turn_of_passed hdecode hperform hnext).trans (goTo_of_lt hlt)
    | wrote hdecode hperform hpush =>
      simp only [write] at hpush
      simp only [turn, hdecode, hperform, write, hpush]
      exact goTo_of_le (Instruction.decode_bounds hdecode).2
    | unanswered hdecode hperform hpush =>
      simp only [write] at hpush
      simp only [turn, hdecode, hperform, write, hpush]
    | stayed hdecode hperform => simp only [turn, hdecode, hperform]
    | changed hdecode hperform => simp only [turn, hdecode, hperform]

/-! ### Whole runs -/

/-- The run from `s` takes its turns from these and ends so. -/
inductive Runs (p : Program) (around : Surroundings) :
    Progress σ → List (Progress σ) → Progress σ × Except Fault Ending → Prop
  | last {s s' : Progress σ} {ending : Except Fault Ending} (hturn : s.turn p around = (s', some ending)) :
    Runs p around s [s] (s', ending)
  | next {s s' : Progress σ} {rest : List (Progress σ)} {outcome : Progress σ × Except Fault Ending}
      (hturn : s.turn p around = (s', none)) (hrest : Runs p around s' rest outcome) :
    Runs p around s (s :: rest) outcome

/-- Where the run from `s` takes its turns from. -/
def turns (p : Program) (around : Surroundings) (s : Progress σ) : List (Progress σ) :=
  match _hturn : s.turn p around with
  | (_, some _) => [s]
  | (s', none) => s :: turns p around s'
termination_by p.size - s.context.pc
decreasing_by
  have := turn_advances _hturn
  omega

theorem turns_of_last {s s' : Progress σ} {ending : Except Fault Ending} (h : s.turn p around = (s', some ending)) :
    s.turns p around = [s] := by
  rw [turns]
  split
  · rfl
  · next h' => cases h.symm.trans h'

theorem turns_of_next {s s' : Progress σ} (h : s.turn p around = (s', none)) :
    s.turns p around = s :: s'.turns p around := by
  rw [turns]
  split
  · next h' => cases h.symm.trans h'
  · next h' =>
    cases h.symm.trans h'
    rfl

/-- As `turns_of_next`, for a turn whose progress is not written out. -/
theorem turns_of_snd_eq_none {s : Progress σ} (h : (s.turn p around).2 = none) :
    s.turns p around = s :: (s.turn p around).1.turns p around :=
  turns_of_next (Prod.ext rfl h)

theorem turns_of_snd_eq_some {s : Progress σ} {ending : Except Fault Ending} (h : (s.turn p around).2 = some ending) :
    s.turns p around = [s] :=
  turns_of_last (Prod.ext rfl h)

theorem finish_of_last {s s' : Progress σ} {ending : Except Fault Ending} (h : s.turn p around = (s', some ending)) :
    s.finish p around = (s', ending) := by
  rw [finish]
  split
  · next h' =>
    cases h.symm.trans h'
    rfl
  · next h' => cases h.symm.trans h'

theorem finish_of_next {s s' : Progress σ} (h : s.turn p around = (s', none)) :
    s.finish p around = s'.finish p around := by
  rw [finish]
  split
  · next h' => cases h.symm.trans h'
  · next h' =>
    cases h.symm.trans h'
    rfl

theorem runs_finish (s : Progress σ) : Runs p around s (s.turns p around) (s.finish p around) := by
  -- The bytes ahead get fewer with every turn, which is what makes `turns` and `finish` end as well.
  induction hn : p.size - s.context.pc using Nat.strongRecOn generalizing s with
  | ind n ih =>
    rcases hturn : s.turn p around with ⟨s', none | ending⟩
    · have hahead := turn_advances hturn
      rw [turns_of_next hturn, finish_of_next hturn]
      exact .next hturn (ih _ (by omega) s' rfl)
    · rw [turns_of_last hturn, finish_of_last hturn]
      exact .last hturn

/-- A run takes the turns that are computed, and there is no other. -/
theorem runs_iff {s : Progress σ} {taken : List (Progress σ)} {outcome : Progress σ × Except Fault Ending} :
    Runs p around s taken outcome ↔ taken = s.turns p around ∧ outcome = s.finish p around := by
  constructor
  · intro h
    induction h with
    | last hturn => exact ⟨(turns_of_last hturn).symm, (finish_of_last hturn).symm⟩
    | next hturn _ ih =>
      obtain ⟨hturns, hfinish⟩ := ih
      rw [turns_of_next hturn, finish_of_next hturn]
      exact ⟨congrArg _ hturns, hfinish⟩
  · intro h
    obtain ⟨rfl, rfl⟩ := h
    exact runs_finish s

/-! ### The turns in order -/

variable {s : Progress σ} {taken : List (Progress σ)} {outcome : Progress σ × Except Fault Ending}

theorem Runs.head?_eq (h : s.Runs p around taken outcome) : taken.head? = some s := by
  cases h with
  | last hturn => rfl
  | next hturn hrest => rfl

/-- What is true in the beginning and is kept by every turn is true throughout. -/
theorem Runs.forall_mem (h : s.Runs p around taken outcome) {I : Progress σ → Prop} (hs : I s)
    (hturn : ∀ t t', t.turn p around = (t', none) → I t → I t') : ∀ t ∈ taken, I t := by
  induction h with
  | last _ => simpa using hs
  | next hnext _ ih => exact List.forall_mem_cons.2 ⟨hs, ih (hturn _ _ hnext hs)⟩

/-- The turn that leaves the run going on is followed by the one from where it led. -/
theorem Runs.infix_of_turn (h : s.Runs p around taken outcome) {t t' : Progress σ} (ht : t ∈ taken)
    (hturn : t.turn p around = (t', none)) : [t, t'] <:+: taken := by
  induction h with
  | last hlast =>
    obtain rfl := List.mem_singleton.1 ht
    cases hlast.symm.trans hturn
  | @next s s' rest outcome hnext hrest ih =>
    rcases List.mem_cons.1 ht with rfl | ht
    · cases hnext.symm.trans hturn
      obtain ⟨after, rfl⟩ := List.head?_eq_some_iff.1 hrest.head?_eq
      exact ⟨[], after, rfl⟩
    · exact (ih ht).trans (List.suffix_cons s rest).isInfix

/-- A turn that ends the run is its last, and the run ends as it does. -/
theorem Runs.last_of_turn (h : s.Runs p around taken outcome) {t t' : Progress σ} {ending : Except Fault Ending}
    (ht : t ∈ taken) (hturn : t.turn p around = (t', some ending)) :
    taken.getLast? = some t ∧ outcome = (t', ending) := by
  induction h with
  | last hlast =>
    obtain rfl := List.mem_singleton.1 ht
    cases hlast.symm.trans hturn
    exact ⟨rfl, rfl⟩
  | @next s s' rest outcome hnext hrest ih =>
    rcases List.mem_cons.1 ht with rfl | ht
    · cases hnext.symm.trans hturn
    · obtain ⟨hlast, houtcome⟩ := ih ht
      refine ⟨?_, houtcome⟩
      rw [List.getLast?_cons, hlast]
      rfl

/-- The last turn of a run ends it. -/
theorem Runs.turn_of_last (h : s.Runs p around taken outcome) {t : Progress σ} (ht : taken.getLast? = some t) :
    t.turn p around = (outcome.1, some outcome.2) := by
  induction h with
  | last hlast =>
    cases ht
    exact hlast
  | @next s s' rest outcome hnext hrest ih =>
    apply ih
    rw [← ht]
    obtain ⟨after, rfl⟩ := List.head?_eq_some_iff.1 hrest.head?_eq
    rfl

end Progress

@[simp] theorem Report.sink_ofEnding (state : RuleState) (clock : Clock) (s : Progress σ)
    (ending : Except Fault Ending) : (Report.ofEnding state clock (s, ending)).sink = s.sink := by
  rcases ending with f | ⟨⟩ | target <;> rfl

theorem Report.result_of_error {state : RuleState} {clock : Clock} {outcome : Progress σ × Except Fault Ending}
    {f : Fault} (h : outcome.2 = .error f) : (Report.ofEnding state clock outcome).result = .error f := by
  obtain ⟨s, ending⟩ := outcome
  cases h
  rfl

namespace Program

variable {p : Program} {state : RuleState} {trigger : Option Trigger} {sink : σ} {clock : Clock} {config : Config}

/-- The run where it stands before its first instruction, or what keeps it from getting there. -/
def entered (p : Program) (state : RuleState) (trigger : Option Trigger) (sink : σ) (config : Config) :
    Progress σ × Except Fault Unit :=
  Progress.enter p (.ofTrigger trigger) state.current ⟨.start trigger config.effectiveStackLimit, sink, #[]⟩

theorem sink_of_entered {s : Progress σ} {r : Except Fault Unit} (h : p.entered state trigger sink config = (s, r)) :
    s.sink = sink := by
  unfold entered Progress.enter at h
  split at h
  · cases h
    rfl
  · dsimp only at h
    split at h <;> cases h <;> rfl

theorem entered_of_error {e : CodeError} (h : p.entryOffset (.ofTrigger trigger) = .error e) :
    (p.entered state trigger sink config).2 = .error (.malformed e) := by
  rw [entered, Progress.enter, h]

theorem entered_of_lt {offset : UInt16} (h : p.entryOffset (.ofTrigger trigger) = .ok offset)
    (hlt : p.size < offset.toNat) :
    (p.entered state trigger sink config).2 = .error (.pcOutOfRange offset.toNat p.size) := by
  rw [entered, Progress.enter, h]
  simp only [checkPc_of_lt hlt]

theorem entered_of_le {offset : UInt16} (h : p.entryOffset (.ofTrigger trigger) = .ok offset)
    (hle : offset.toNat ≤ p.size) :
    ∃ s : Progress σ, p.entered state trigger sink config = (s, .ok ()) ∧
      s.context = { Context.start trigger config.effectiveStackLimit with pc := offset.toNat } := by
  rw [entered, Progress.enter, h]
  simp only [checkPc_of_le hle]
  exact ⟨_, rfl, rfl⟩

theorem entered_eq_ok_iff {s : Progress σ} :
    p.entered state trigger sink config = (s, .ok ()) ↔
      ∃ offset, p.entryOffset (.ofTrigger trigger) = .ok offset ∧ offset.toNat ≤ p.size ∧
        s = ⟨{ Context.start trigger config.effectiveStackLimit with pc := offset.toNat }, sink,
          #[.running offset (.ofTrigger trigger) state.current]⟩ := by
  unfold entered Progress.enter
  cases hoffset : p.entryOffset (.ofTrigger trigger) with
  | error e => simp
  | ok offset =>
    by_cases hle : offset.toNat ≤ p.size
    · simp [checkPc_of_le hle, hle, eq_comm]
    · simp [checkPc_of_lt (Nat.not_le.1 hle), hle]

/-- A run that does not reach its entry fails for its code. -/
theorem faultClass_of_refused {s : Progress σ} {f : Fault} (h : p.entered state trigger sink config = (s, .error f)) :
    f.faultClass = .malformedProgram := by
  unfold entered Progress.enter at h
  cases hoffset : p.entryOffset (.ofTrigger trigger) with
  | error e =>
    rw [hoffset] at h
    cases h
    rfl
  | ok offset =>
    rw [hoffset] at h
    by_cases hle : offset.toNat ≤ p.size
    · simp [checkPc_of_le hle] at h
    · simp only [checkPc_of_lt (Nat.not_le.1 hle)] at h
      cases h
      rfl

variable [Sink σ]

/-- What the run takes its turns from, none if it does not reach its entry. -/
def turns (p : Program) (state : RuleState) (trigger : Option Trigger) (sink : σ) (clock : Clock) (config : Config) :
    List (Progress σ) :=
  match p.entered state trigger sink config with
  | (_, .error _) => []
  | (s, .ok ()) => s.turns p ⟨state, clock⟩

/-- The program, run once, takes its turns from these and leaves this behind. -/
inductive Runs (p : Program) (state : RuleState) (trigger : Option Trigger) (sink : σ) (clock : Clock)
    (config : Config) : List (Progress σ) → Report σ → Prop
  | refused {s : Progress σ} {f : Fault} (henter : p.entered state trigger sink config = (s, .error f)) :
    Runs p state trigger sink clock config [] (.ofEnding state clock (s, .error f))
  | begun {s : Progress σ} {taken : List (Progress σ)} {outcome : Progress σ × Except Fault Ending}
      (henter : p.entered state trigger sink config = (s, .ok ()))
      (hruns : s.Runs p ⟨state, clock⟩ taken outcome) :
    Runs p state trigger sink clock config taken (.ofEnding state clock outcome)

theorem turns_of_refused {s : Progress σ} {f : Fault} (h : p.entered state trigger sink config = (s, .error f)) :
    p.turns state trigger sink clock config = [] := by
  rw [turns, h]

theorem turns_of_begun {s : Progress σ} (h : p.entered state trigger sink config = (s, .ok ())) :
    p.turns state trigger sink clock config = s.turns p ⟨state, clock⟩ := by
  rw [turns, h]

theorem runToEnd_of_refused {s : Progress σ} {f : Fault} (h : p.entered state trigger sink config = (s, .error f)) :
    p.runToEnd ⟨state, clock⟩ trigger sink config.effectiveStackLimit = (s, .error f) := by
  rw [entered] at h
  rw [runToEnd, h]

theorem runToEnd_of_begun {s : Progress σ} (h : p.entered state trigger sink config = (s, .ok ())) :
    p.runToEnd ⟨state, clock⟩ trigger sink config.effectiveStackLimit = s.finish p ⟨state, clock⟩ := by
  rw [entered] at h
  rw [runToEnd, h]

theorem execute_of_refused {s : Progress σ} {f : Fault} (h : p.entered state trigger sink config = (s, .error f)) :
    p.execute state trigger sink clock config = .ofEnding state clock (s, .error f) := by
  rw [execute, runToEnd_of_refused h]

theorem execute_of_begun {s : Progress σ} (h : p.entered state trigger sink config = (s, .ok ())) :
    p.execute state trigger sink clock config = .ofEnding state clock (s.finish p ⟨state, clock⟩) := by
  rw [execute, runToEnd_of_begun h]

theorem runs_execute :
    p.Runs state trigger sink clock config (p.turns state trigger sink clock config)
      (p.execute state trigger sink clock config) := by
  rcases henter : p.entered state trigger sink config with ⟨s, f | ⟨⟩⟩
  · rw [turns_of_refused henter, execute_of_refused henter]
    exact .refused henter
  · rw [turns_of_begun henter, execute_of_begun henter]
    exact .begun henter (Progress.runs_finish s)

theorem runs_iff {taken : List (Progress σ)} {report : Report σ} :
    p.Runs state trigger sink clock config taken report ↔
      taken = p.turns state trigger sink clock config ∧ report = p.execute state trigger sink clock config := by
  constructor
  · intro h
    cases h with
    | refused henter => exact ⟨(turns_of_refused henter).symm, (execute_of_refused henter).symm⟩
    | begun henter hruns =>
      obtain ⟨hturns, hfinish⟩ := Progress.runs_iff.1 hruns
      rw [turns_of_begun henter, execute_of_begun henter, hturns, hfinish]
      exact ⟨rfl, rfl⟩
  · intro h
    obtain ⟨rfl, rfl⟩ := h
    exact runs_execute

/-- A run that takes turns has reached its entry. -/
theorem begun_of_mem {s : Progress σ} (hs : s ∈ p.turns state trigger sink clock config) :
    ∃ s₀ outcome, p.entered state trigger sink config = (s₀, .ok ()) ∧
      s₀.Runs p ⟨state, clock⟩ (p.turns state trigger sink clock config) outcome ∧
      p.execute state trigger sink clock config = .ofEnding state clock outcome := by
  rcases henter : p.entered state trigger sink config with ⟨s₀, f | ⟨⟩⟩
  · rw [turns_of_refused henter] at hs
    exact absurd hs List.not_mem_nil
  · rw [turns_of_begun henter, execute_of_begun henter]
    exact ⟨s₀, _, rfl, Progress.runs_finish s₀, rfl⟩

/-- What is true before the first instruction and is kept by every turn is true throughout the run. -/
theorem forall_turns {I : Progress σ → Prop}
    (hentered : ∀ s, p.entered state trigger sink config = (s, .ok ()) → I s)
    (hturn : ∀ s s', s.turn p ⟨state, clock⟩ = (s', none) → I s → I s') :
    ∀ s ∈ p.turns state trigger sink clock config, I s := by
  rcases henter : p.entered state trigger sink config with ⟨s, f | ⟨⟩⟩
  · rw [turns_of_refused henter]
    simp
  · rw [turns_of_begun henter]
    exact (Progress.runs_finish s).forall_mem (hentered s henter) hturn

end Program

/-! ### A run to look at

What the results about runs are tried on: a machine just loaded, and a clock that moves while the program runs. -/

namespace Sample

/-- The state of a program that was loaded on a morning in May. -/
def state : RuleState := .start 0 ⟨⟨2013, 5, 6, by decide⟩, 4, 5, 6, 7, by decide, by decide⟩

/-- Two seconds later. -/
def now : Moment := ⟨⟨2013, 5, 6, by decide⟩, 4, 5, 8, 7, by decide, by decide⟩

/-- The clock shows that time at first and goes on by a second before a run comes to its second byte. -/
def clock : Clock := ⟨fun pc => if pc < 6 then now else ⟨⟨2013, 5, 6, by decide⟩, 4, 5, 9, 7, by decide, by decide⟩⟩

/-- A program that changes to the state 7. -/
def change : Program := ⟨#[0, 0, 5, 0, 5, 7, 7, 59], by decide⟩

/-- As `change`, behind a jump over the instruction that stays, and so for packets too. -/
def jump : Program := ⟨#[0, 0, 9, 0, 5, 6, 54, 1, 60, 7, 7, 59], by decide⟩

end Sample

end RuleMachine
