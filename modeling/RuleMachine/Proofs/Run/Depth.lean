import RuleMachine.Proofs.Run.Perform
import RuleMachine.Proofs.Run.Trace

/-!
# How deep the stack gets

The stack of a run never holds more than its limit, and the limit never changes. Only a push adds to a stack and it checks for room; everything else takes values away or moves them. The rest is carried from the operations of the stack to the instruction, and from one turn along the whole run.
-/

namespace RuleMachine

namespace Stack

/-- An operation can lead from `s` to `s'`: the limit stays, and so does keeping within it. -/
structure Reaches (s s' : Stack) : Prop where
  limit_eq : s'.limit = s.limit
  depth_le : s.depth ≤ s.limit → s'.depth ≤ s'.limit

variable {s s' : Stack}

theorem Reaches.refl (s : Stack) : s.Reaches s := ⟨rfl, id⟩

theorem Reaches.trans {a b c : Stack} (hab : a.Reaches b) (hbc : b.Reaches c) : a.Reaches c :=
  ⟨hbc.limit_eq.trans hab.limit_eq, hbc.depth_le ∘ hab.depth_le⟩

/-- Values that are no more than those before keep within the limit. -/
theorem reaches_of_length_le {values : List Value} (h : values.length ≤ s.depth) :
    s.Reaches { s with values } := ⟨rfl, Nat.le_trans h⟩

/-- Two operands always leave room for one result. -/
theorem length_lt_of_pair {v w : Value} {rest : List Value} (hvalues : s.values = v :: w :: rest)
    (hdepth : s.depth ≤ s.limit) : rest.length < s.limit := by
  rw [depth, hvalues, List.length_cons, List.length_cons] at hdepth
  omega

theorem reaches_of_push {v : Value} (h : s.push v = .ok s') : s.Reaches s' := by
  unfold push at h
  split at h
  · next hlt =>
    cases h
    exact ⟨rfl, fun _ => hlt⟩
  · cases h

theorem reaches_of_pop {v : Value} (h : s.pop = .ok (v, s')) : s.Reaches s' := by
  unfold pop at h
  split at h
  · next hvalues =>
    cases h
    refine reaches_of_length_le ?_
    rw [depth, hvalues, List.length_cons]
    omega
  · cases h

theorem reaches_of_popPair {v w : Value} (h : s.popPair = .ok (w, v, s')) : s.Reaches s' := by
  unfold popPair at h
  split at h
  · next hvalues =>
    cases h
    refine reaches_of_length_le ?_
    rw [depth, hvalues, List.length_cons, List.length_cons]
    omega
  · cases h

theorem reaches_of_dup {offset : Nat} (h : s.dup offset = .ok s') : s.Reaches s' := by
  unfold dup at h
  split at h
  · exact reaches_of_push h
  · cases h

theorem reaches_of_rot {offset : Nat} (h : s.rot offset = .ok s') : s.Reaches s' := by
  unfold rot at h
  split at h
  · next hvalue =>
    cases h
    obtain ⟨hlt, -⟩ := List.getElem?_eq_some_iff.1 hvalue
    refine reaches_of_length_le ?_
    rw [depth, List.length_cons, List.length_eraseIdx_of_lt hlt]
    omega
  · cases h

end Stack

namespace Context

/-- Performing can lead from `c` to `c'`: it is the same place of the same run, and the stack keeps within its limit. -/
structure Reaches (c c' : Context) : Prop where
  trigger_eq : c'.trigger = c.trigger
  pc_eq : c'.pc = c.pc
  opcode_eq : c'.opcode = c.opcode
  stack : c.stack.Reaches c'.stack

variable {c c' : Context}

theorem Reaches.refl (c : Context) : c.Reaches c := ⟨rfl, rfl, rfl, .refl _⟩

theorem Reaches.trans {a b c : Context} (hab : a.Reaches b) (hbc : b.Reaches c) : a.Reaches c :=
  ⟨hbc.trigger_eq.trans hab.trigger_eq, hbc.pc_eq.trans hab.pc_eq, hbc.opcode_eq.trans hab.opcode_eq,
    hab.stack.trans hbc.stack⟩

theorem reaches_of_withStack {r : Except StackFault Stack} (hr : ∀ s, r = .ok s → c.stack.Reaches s)
    (h : c.withStack r = .ok c') : c.Reaches c' := by
  unfold withStack at h
  split at h
  · cases h
    exact ⟨rfl, rfl, rfl, hr _ rfl⟩
  · cases h

theorem reaches_of_push {v : Value} (h : c.push v = .ok c') : c.Reaches c' :=
  reaches_of_withStack (fun _ => Stack.reaches_of_push) h

theorem push_of_room {v : Value} (h : c.stack.depth < c.stack.limit) :
    c.push v = .ok { c with stack := { c.stack with values := v :: c.stack.values } } := by
  rw [push, Stack.push, if_pos h]
  rfl

theorem push_eq_ok_iff {v : Value} :
    c.push v = .ok c' ↔
      c.stack.depth < c.stack.limit ∧ c' = { c with stack := { c.stack with values := v :: c.stack.values } } := by
  by_cases hroom : c.stack.depth < c.stack.limit
  · rw [push_of_room hroom, Except.ok.injEq, eq_comm]
    exact (and_iff_right hroom).symm
  · rw [push, Stack.push, if_neg hroom]
    constructor
    · intro h
      cases h
    · intro h
      exact absurd h.1 hroom

theorem reaches_of_dup {offset : Nat} (h : c.dup offset = .ok c') : c.Reaches c' :=
  reaches_of_withStack (fun _ => Stack.reaches_of_dup) h

theorem reaches_of_rot {offset : Nat} (h : c.rot offset = .ok c') : c.Reaches c' :=
  reaches_of_withStack (fun _ => Stack.reaches_of_rot) h

theorem reaches_of_pop {v : Value} (h : c.pop = .ok (v, c')) : c.Reaches c' := by
  unfold pop at h
  split at h
  · next hpop =>
    cases h
    exact ⟨rfl, rfl, rfl, Stack.reaches_of_pop hpop⟩
  · cases h

theorem reaches_of_popPair {v w : Value} (h : c.popPair = .ok (w, v, c')) : c.Reaches c' := by
  unfold popPair at h
  split at h
  · next hpop =>
    cases h
    exact ⟨rfl, rfl, rfl, Stack.reaches_of_popPair hpop⟩
  · cases h

theorem reaches_of_setRegister {index : UInt8} {v : Value} (h : c.setRegister index v = .ok c') : c.Reaches c' := by
  unfold setRegister at h
  split at h
  · cases h
    exact ⟨rfl, rfl, rfl, .refl _⟩
  · cases h

theorem reaches_of_pushAll {values : List Value} (h : c.pushAll values = .ok c') : c.Reaches c' := by
  induction values generalizing c with
  | nil =>
    cases h
    exact .refl _
  | cons v values ih =>
    obtain ⟨c₁, hpush, hrest⟩ := Except.bind_eq_ok_iff.1 h
    exact (reaches_of_push hpush).trans (ih hrest)

/-! ### Each way of performing -/

variable {next : Next}

theorem reaches_of_advanceWith {v : Value} (h : c.advanceWith v = .ok (c', next)) : c.Reaches c' := by
  obtain ⟨c₁, hpush, heq⟩ := Except.bind_eq_ok_iff.1 h
  cases heq
  exact reaches_of_push hpush

theorem reaches_of_mapTop {f : Value → Except Fault Value} (h : c.mapTop f = .ok (c', next)) : c.Reaches c' := by
  obtain ⟨⟨v, c₁⟩, hpop, h⟩ := Except.bind_eq_ok_iff.1 h
  obtain ⟨w, -, h⟩ := Except.bind_eq_ok_iff.1 h
  exact (reaches_of_pop hpop).trans (reaches_of_advanceWith h)

theorem reaches_of_mapPair {f : Value → Value → Except Fault Value} (h : c.mapPair f = .ok (c', next)) :
    c.Reaches c' := by
  obtain ⟨⟨w, v, c₁⟩, hpop, h⟩ := Except.bind_eq_ok_iff.1 h
  obtain ⟨u, -, h⟩ := Except.bind_eq_ok_iff.1 h
  exact (reaches_of_popPair hpop).trans (reaches_of_advanceWith h)

theorem mapTop_of_values {f : Value → Except Fault Value} {v u : Value} {rest : List Value}
    (hvalues : c.stack.values = v :: rest) (hdepth : c.stack.depth ≤ c.stack.limit) (hu : f v = .ok u) :
    c.mapTop f = .ok ({ c with stack := { c.stack with values := u :: rest } }, .advance) := by
  have hroom : rest.length < c.stack.limit := by
    rw [Stack.depth, hvalues] at hdepth
    exact hdepth
  refine Except.bind_eq_ok_iff.2 ⟨_, pop_eq_ok_iff.2 ⟨rest, hvalues, rfl⟩, ?_⟩
  refine Except.bind_eq_ok_iff.2 ⟨u, hu, ?_⟩
  exact Except.bind_eq_ok_iff.2 ⟨_, push_of_room hroom, rfl⟩

theorem mapTop_of_refused {f : Value → Except Fault Value} {v : Value} {rest : List Value} {e : Fault}
    (hvalues : c.stack.values = v :: rest) (hv : f v = .error e) : c.mapTop f = .error e := by
  rw [mapTop, pop_eq_ok_iff.2 ⟨rest, hvalues, rfl⟩, Except.ok_bind]
  dsimp only
  rw [hv]
  rfl

theorem mapPair_of_values {f : Value → Value → Except Fault Value} {v w u : Value} {rest : List Value}
    (hvalues : c.stack.values = v :: w :: rest) (hdepth : c.stack.depth ≤ c.stack.limit) (hu : f w v = .ok u) :
    c.mapPair f = .ok ({ c with stack := { c.stack with values := u :: rest } }, .advance) := by
  have hroom := Stack.length_lt_of_pair hvalues hdepth
  refine Except.bind_eq_ok_iff.2 ⟨_, popPair_eq_ok_iff.2 ⟨rest, hvalues, rfl⟩, ?_⟩
  refine Except.bind_eq_ok_iff.2 ⟨u, hu, ?_⟩
  exact Except.bind_eq_ok_iff.2 ⟨_, push_of_room hroom, rfl⟩

theorem reaches_of_decompose {mask : Datetime.Mask} (h : c.decompose mask = .ok (c', next)) : c.Reaches c' := by
  obtain ⟨⟨v, c₁⟩, hpop, h⟩ := Except.bind_eq_ok_iff.1 h
  cases v
  case datetime d =>
    obtain ⟨c₂, hpush, heq⟩ := Except.bind_eq_ok_iff.1 h
    cases heq
    exact (reaches_of_pop hpop).trans (reaches_of_pushAll hpush)
  all_goals cases h

theorem reaches_of_switch {table : SwitchTable} (h : c.switch table = .ok (c', next)) : c.Reaches c' := by
  obtain ⟨⟨v, c₁⟩, hpop, h⟩ := Except.bind_eq_ok_iff.1 h
  obtain ⟨key, -, h⟩ := Except.bind_eq_ok_iff.1 h
  split at h <;> cases h <;> exact reaches_of_pop hpop

theorem reaches_of_jumpIf {zero : Bool} {skip : UInt16} (h : c.jumpIf zero skip = .ok (c', next)) : c.Reaches c' := by
  obtain ⟨⟨v, c₁⟩, hpop, h⟩ := Except.bind_eq_ok_iff.1 h
  dsimp only at h
  split at h <;> cases h
  exact reaches_of_pop hpop

theorem reaches_of_perform {around : Surroundings} {i : Instruction} (h : c.perform around i = .ok (c', next)) :
    c.Reaches c' := by
  cases i
  case decompose => exact reaches_of_decompose h
  case switch => exact reaches_of_switch h
  case jump condition skip short =>
    cases condition with
    | always =>
      cases h
      exact .refl _
    | zero => exact reaches_of_jumpIf h
    | nonZero => exact reaches_of_jumpIf h
  case loadState | loadDwell | loadClock | loadFalse | loadTrue | loadU8 | loadU16 | loadU32 | loadFloat |
      loadDatetime => exact reaches_of_advanceWith h
  case not | typeTag | compareBlock | compareUnspecified | compareLoopback | convert =>
    simp only [perform] at h
    exact reaches_of_mapTop h
  case arithmetic | bitwise | datetimeDiff | datetimeCompare => exact reaches_of_mapPair h
  case loadSourceAddress | loadSourceEndpoint | loadSourceValue | loadRegister =>
    obtain ⟨_, -, h⟩ := Except.bind_eq_ok_iff.1 h
    exact reaches_of_advanceWith h
  case dup | dupAt =>
    obtain ⟨c₁, hdup, heq⟩ := Except.bind_eq_ok_iff.1 h
    cases heq
    exact reaches_of_dup hdup
  case rot | rotAt =>
    obtain ⟨c₁, hrot, heq⟩ := Except.bind_eq_ok_iff.1 h
    cases heq
    exact reaches_of_rot hrot
  case pop =>
    obtain ⟨r, hpop, heq⟩ := Except.bind_eq_ok_iff.1 h
    cases heq
    exact reaches_of_pop hpop
  case storeRegister =>
    obtain ⟨⟨v, c₁⟩, hpop, h⟩ := Except.bind_eq_ok_iff.1 h
    obtain ⟨c₂, hset, heq⟩ := Except.bind_eq_ok_iff.1 h
    cases heq
    exact (reaches_of_pop hpop).trans (reaches_of_setRegister hset)
  case write =>
    obtain ⟨⟨w, v, c₁⟩, hpop, h⟩ := Except.bind_eq_ok_iff.1 h
    obtain ⟨n, -, heq⟩ := Except.bind_eq_ok_iff.1 h
    cases heq
    exact reaches_of_popPair hpop
  case changeState =>
    obtain ⟨⟨v, c₁⟩, hpop, h⟩ := Except.bind_eq_ok_iff.1 h
    obtain ⟨n, -, heq⟩ := Except.bind_eq_ok_iff.1 h
    cases heq
    exact reaches_of_pop hpop
  case stay =>
    cases h
    exact .refl _

end Context

/-! ### Along a run -/

variable {σ : Type} [Sink σ] {p : Program}

theorem Progress.stack_of_turn {around : Surroundings} {s s' : Progress σ} {ending : Option (Except Fault Ending)}
    (h : s.turn p around = (s', ending)) : s.context.stack.Reaches s'.context.stack := by
  rw [turn_eq_iff] at h
  cases h with
  | undecoded hdecode => exact .refl _
  | failed hdecode hperform => exact .refl _
  | moved hdecode hperform hnext hle => exact (Context.reaches_of_perform hperform).stack
  | left hdecode hperform hnext hlt => exact .refl _
  | wrote hdecode hperform hpush =>
    exact (Context.reaches_of_perform hperform).stack.trans (Context.reaches_of_push hpush).stack
  | unanswered hdecode hperform hpush => exact (Context.reaches_of_perform hperform).stack
  | stayed hdecode hperform => exact .refl _
  | changed hdecode hperform => exact .refl _

namespace Program

variable {state : RuleState} {trigger : Option Trigger} {sink : σ} {clock : Clock} {config : Config}

omit [Sink σ] in
theorem stack_of_entered {s : Progress σ} (h : p.entered state trigger sink config = (s, .ok ())) :
    s.context.stack = .empty config.stackLimit := by
  obtain ⟨offset, -, -, rfl⟩ := entered_eq_ok_iff.1 h
  simp [Context.start, Stack.empty, Config.effectiveStackLimit]

omit [Sink σ] in
theorem depth_le_of_entered {s : Progress σ} (h : p.entered state trigger sink config = (s, .ok ())) :
    s.context.stack.depth ≤ s.context.stack.limit := by
  rw [stack_of_entered h]
  exact Nat.zero_le _

/-- The stack of a run keeps within the limit of the settings. -/
theorem depth_le_of_turns :
    ∀ s ∈ p.turns state trigger sink clock config,
      s.context.stack.limit = config.effectiveStackLimit ∧ s.context.stack.depth ≤ s.context.stack.limit := by
  apply forall_turns
  · intro s henter
    exact ⟨congrArg Stack.limit (stack_of_entered henter), depth_le_of_entered henter⟩
  · intro s s' hturn hs
    have hstack := Progress.stack_of_turn hturn
    exact ⟨hstack.limit_eq.trans hs.1, hstack.depth_le hs.2⟩

end Program

end RuleMachine
