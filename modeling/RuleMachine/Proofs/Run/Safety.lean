import RuleMachine.Proofs.Run.Faults
import RuleMachine.Proofs.Stack.Slots

/-!
# Nothing outside

What a run accesses. Its instructions ask for operations on the stack, one after the other, and the stack that a turn finds is what the operations before it have left: carried out on an array they never reach outside of it, and however many of them are carried out the stack keeps within the limit. Registers, switch tables and block literals are indexed only where the instruction was decoded with an index in range, and an instruction overflows the stack only if it leaves more than it takes.
-/

namespace RuleMachine

/-- The instruction leaves more values on the stack than it takes from it: it loads a value, copies one or takes a date apart into two parts or more. -/
def Instruction.grows : Instruction → Bool
  | loadSourceAddress | loadSourceEndpoint | loadSourceValue | loadState | loadDwell | loadClock | loadFalse | loadTrue
  | loadU8 _ | loadU16 _ | loadU32 _ | loadFloat _ | loadDatetime _ _ | loadRegister _ | dup | dupAt _ => true
  | decompose mask => 2 ≤ mask.fields.length
  | _ => false

theorem Instruction.grows_iff (i : Instruction) : i.grows = true ↔ i.takes < i.leaves := by
  cases i
  case decompose mask => exact decide_eq_true_iff
  case dup | dupAt => exact iff_of_true rfl (Nat.lt_succ_self _)
  case rot | rotAt => exact iff_of_false Bool.false_ne_true (Nat.lt_irrefl _)
  case jump => exact iff_of_false Bool.false_ne_true (Nat.not_lt_zero _)
  case loadSourceAddress | loadSourceEndpoint | loadSourceValue | loadState | loadDwell | loadClock | loadFalse |
      loadTrue | loadU8 | loadU16 | loadU32 | loadFloat | loadDatetime | loadRegister =>
    exact iff_of_true rfl Nat.one_pos
  all_goals exact iff_of_false Bool.false_ne_true (Nat.not_lt.2 (Nat.le_of_ble_eq_true rfl))

/-! ### Within the limit -/

namespace Stack

variable {s s' : Stack}

theorem reaches_of_apply {op : Operation} {values : List Value} (h : s.apply op = .ok (values, s')) :
    s.Reaches s' := by
  cases op with
  | push v =>
    obtain ⟨_, hpush, heq⟩ := Except.map_eq_ok_iff.1 h
    cases heq
    exact reaches_of_push hpush
  | popMany n =>
    simp only [apply, popMany] at h
    split at h <;> cases h
    refine reaches_of_length_le ?_
    rw [List.length_drop, depth]
    omega
  | dup offset =>
    obtain ⟨_, hdup, heq⟩ := Except.map_eq_ok_iff.1 h
    cases heq
    exact reaches_of_dup hdup
  | rot offset =>
    obtain ⟨_, hrot, heq⟩ := Except.map_eq_ok_iff.1 h
    cases heq
    exact reaches_of_rot hrot

theorem reaches_of_carryOut {ops : List Operation} (h : s.carryOut ops = .ok s') : s.Reaches s' := by
  induction ops generalizing s with
  | nil =>
    cases h
    exact .refl _
  | cons op ops ih =>
    obtain ⟨⟨_, _⟩, happly, hrest⟩ := Except.bind_eq_ok_iff.1 h
    exact (reaches_of_apply happly).trans (ih hrest)

end Stack

/-- After operations from the start the stack is within its limit and stands in the array, or the same one of them was refused by both. -/
theorem Slots.carryOut_empty (stackLimit : Nat) (ops : List Stack.Operation) :
    (∃ m s, (empty stackLimit).carryOut ops = some (.ok m) ∧ (Stack.empty stackLimit).carryOut ops = .ok s ∧
        m.Holds s ∧ s.depth ≤ min stackLimit 32) ∨
      ∃ f, (empty stackLimit).carryOut ops = some (.error f) ∧ (Stack.empty stackLimit).carryOut ops = .error f := by
  rcases carryOut_agrees (holds_empty stackLimit) ops with ⟨m, s, hslots, hstack, hholds⟩ | hrefused
  · have hreaches := Stack.reaches_of_carryOut hstack
    have hdepth := hreaches.depth_le (Nat.zero_le _)
    rw [hreaches.limit_eq] at hdepth
    exact .inl ⟨m, s, hslots, hstack, hholds, hdepth⟩
  · exact .inr hrefused

/-! ### The operations of an instruction -/

/-- What the instruction asks of the stack: it takes its operands and, if it does not refuse them, pushes its results. -/
def Instruction.operations (seen : Sight) (i : Instruction) (operands : List Value) : List Stack.Operation :=
  match i with
  | .dup => [.dup 0]
  | .dupAt offset => [.dup offset.toNat]
  | .rot => [.rot 1]
  | .rotAt offset => [.rot offset.toNat]
  | i =>
    Stack.taking i.takes ++
      (i.effect seen operands).toOption.elim [] fun e => e.results.reverse.map .push

namespace Context

variable {c : Context} {i : Instruction} {around : Surroundings}

/-- Performing comes to these operations on the stack: it fails for one that is refused, and otherwise leaves their stack behind if it succeeds. -/
inductive Asks (c : Context) (around : Surroundings) (i : Instruction) (ops : List Stack.Operation) : Prop
  | refused {f : StackFault} (hops : c.stack.carryOut ops = .error f)
      (hperform : c.perform around i = .error (c.fault f))
  | done {stack : Stack} (hops : c.stack.carryOut ops = .ok stack)
      (hperform : ∀ c' next, c.perform around i = .ok (c', next) → c'.stack = stack)

theorem asks_of_withStack {ops : List Stack.Operation} {r : Except StackFault Stack} (hops : c.stack.carryOut ops = r)
    (hperform : c.perform around i = (c.withStack r).map (·, .advance)) : c.Asks around i ops := by
  cases r with
  | error f => exact .refused hops hperform
  | ok stack =>
    refine .done hops ?_
    intro c' next h
    cases hperform.symm.trans h
    rfl

/-- An instruction takes its operands at once, and pushes its results one after the other. -/
theorem asks_of_effect (hopcode : c.opcode = i.opcode) (hdepth : c.stack.depth ≤ c.stack.limit) :
    c.Asks around i
      (Stack.taking i.takes ++ (i.effect (c.sight around) (c.stack.values.take i.takes)).toOption.elim []
        fun e => e.results.reverse.map .push) := by
  have hperform := @perform_eq c i around hopcode hdepth
  have htaking := c.stack.carryOut_taking i.takes
  by_cases htakes : i.takes ≤ c.stack.depth
  · rw [if_pos htakes] at htaking
    cases heffect : i.effect (c.sight around) (c.stack.values.take i.takes) with
    | error f =>
      rw [heffect] at hperform
      refine .done ((congrArg c.stack.carryOut (List.append_nil _)).trans htaking) ?_
      intro c' next h
      cases hperform.symm.trans h
    | ok e =>
      have hops := Stack.carryOut_replacing hdepth htakes e.results
      rw [heffect] at hperform
      simp only [Except.bind, settle] at hperform
      by_cases hroom : c.stack.depth - i.takes + e.results.length ≤ c.stack.limit
      · rw [if_pos hroom] at hops hperform
        refine .done hops ?_
        intro c' next h
        cases hperform.symm.trans h
        rfl
      · rw [if_neg hroom] at hops hperform
        exact .refused hops hperform
  · have hlength : (c.stack.values.take i.takes).length = c.stack.depth := by
      rw [List.length_take, Stack.depth]
      rw [Stack.depth] at htakes
      omega
    have hunderflow : i.underflow (c.stack.values.take i.takes) = c.fault (.underflow i.takes) := by
      rw [Instruction.underflow, hlength, ← hopcode]
      rfl
    have heffect := @Instruction.effect_of_short (c.sight around) i _ (hlength ▸ Nat.not_le.1 htakes)
    rw [heffect, hunderflow] at hperform
    rw [if_neg htakes] at htaking
    rw [heffect]
    exact .refused ((congrArg c.stack.carryOut (List.append_nil _)).trans htaking) hperform

theorem asks_operations (hopcode : c.opcode = i.opcode) (hdepth : c.stack.depth ≤ c.stack.limit) :
    c.Asks around i (i.operations (c.sight around) (c.stack.values.take i.takes)) := by
  cases i
  case dup => exact asks_of_withStack (c.stack.carryOut_dup 0) (by rw [perform, dup]; cases c.stack.dup 0 <;> rfl)
  case dupAt offset =>
    exact asks_of_withStack (c.stack.carryOut_dup offset.toNat)
      (by rw [perform, dup]; cases c.stack.dup offset.toNat <;> rfl)
  case rot => exact asks_of_withStack (c.stack.carryOut_rot 1) (by rw [perform, rot]; cases c.stack.rot 1 <;> rfl)
  case rotAt offset =>
    exact asks_of_withStack (c.stack.carryOut_rot offset.toNat)
      (by rw [perform, rot]; cases c.stack.rot offset.toNat <;> rfl)
  all_goals exact asks_of_effect hopcode hdepth

/-- A register that there is not is not loaded from. -/
theorem perform_loadRegister_of_ge {index : UInt8} (hindex : 16 ≤ index.toNat) :
    c.perform around (.loadRegister index) = .error (.invalidRegister index) := by
  rw [perform, register, Vector.getElem?_eq_none hindex]
  rfl

/-- Nor is it stored to, whether or not there is a value to store. -/
theorem perform_storeRegister_of_ge {index : UInt8} (hindex : 16 ≤ index.toNat) :
    c.perform around (.storeRegister index) = .error (.invalidRegister index) ∨
      c.perform around (.storeRegister index) = .error (.stackUnderflow c.opcode 1 0) := by
  rw [perform]
  rcases hvalues : c.stack.values with _ | ⟨v, rest⟩
  · have hpop : c.pop = .error (.stackUnderflow c.opcode 1 0) := by
      rw [pop, Stack.pop, hvalues]
      simp only [fault, Stack.depth, hvalues]
      rfl
    rw [hpop]
    exact .inr rfl
  · rw [pop_eq_ok_iff.2 ⟨rest, hvalues, rfl⟩, Except.ok_bind]
    dsimp only
    rw [setRegister, dif_neg (Nat.not_lt.2 hindex)]
    exact .inl rfl

end Context

/-! ### The operations of a run -/

variable {σ : Type} {p : Program} {around : Surroundings}

namespace Progress

variable {s s' : Progress σ}

theorem asks_begin (hdepth : s.context.stack.depth ≤ s.context.stack.limit) (i : Instruction) :
    (s.begin i).context.Asks around i
      (i.operations (s.context.sight around) (s.context.stack.values.take i.takes)) :=
  @Context.asks_operations (s.begin i).context i around rfl hdepth

theorem carryOut_of_perform {i : Instruction} {c : Context} {next : Next}
    (hdepth : s.context.stack.depth ≤ s.context.stack.limit)
    (hperform : (s.begin i).context.perform around i = .ok (c, next)) :
    s.context.stack.carryOut (i.operations (s.context.sight around) (s.context.stack.values.take i.takes)) =
      .ok c.stack := by
  cases s.asks_begin hdepth i with
  | refused hops hfailed => cases hperform.symm.trans hfailed
  | done hops hdone =>
    rw [hdone c next hperform]
    exact hops

variable [Sink σ]

/-- What the turn from here asks of the stack: a write that is answered pushes the answer. -/
def operations (p : Program) (around : Surroundings) (s : Progress σ) : List Stack.Operation :=
  match Instruction.decode p.bytes s.context.pc with
  | .ok (i, _) =>
    i.operations (s.context.sight around) (s.context.stack.values.take i.takes) ++
      (s.answered? p).toList.map fun w => .push (.u8 w.code)
  | .error _ => []

theorem operations_of_decode {i : Instruction} {length : Nat}
    (hdecode : Instruction.decode p.bytes s.context.pc = .ok (i, length)) :
    s.operations p around =
      i.operations (s.context.sight around) (s.context.stack.values.take i.takes) ++
        (s.answered? p).toList.map fun w => .push (.u8 w.code) := by
  rw [operations, hdecode]

/-- A turn that leaves the run going on has carried out its operations. -/
theorem carryOut_of_turn (hdepth : s.context.stack.depth ≤ s.context.stack.limit)
    (h : s.turn p around = (s', none)) :
    s.context.stack.carryOut (s.operations p around) = .ok s'.context.stack := by
  rw [turn_eq_iff] at h
  cases h with
  | moved hdecode hperform hnext hle =>
    have hrequest := request?_of_performed hdecode hperform
    have hcarried := carryOut_of_perform hdepth hperform
    rw [operations_of_decode hdecode, answered?, hrequest, Next.request?_of_passed hnext]
    exact (congrArg s.context.stack.carryOut (List.append_nil _)).trans hcarried
  | @wrote i length c c' endpoint v hdecode hperform hpush =>
    have hrequest := request?_of_performed hdecode hperform
    have hcarried := carryOut_of_perform hdepth hperform
    have hanswer : c.withStack (c.stack.push (.u8 (Sink.write s.sink endpoint v).code)) = .ok c' := hpush
    rw [operations_of_decode hdecode, answered?, hrequest, Stack.carryOut_append, hcarried, Except.ok_bind]
    cases hroom : c.stack.push (.u8 (Sink.write s.sink endpoint v).code) with
    | error f =>
      rw [hroom] at hanswer
      cases hanswer
    | ok stack =>
      rw [hroom] at hanswer
      cases hanswer
      simp only [Next.request?, Option.map_some, Option.toList_some, List.map_cons, List.map_nil, Stack.carryOut,
        Stack.apply, hroom]
      rfl

/-- An operation that is refused ends the run with the fault that this is. -/
theorem turn_of_refused (hdepth : s.context.stack.depth ≤ s.context.stack.limit) {f : StackFault}
    (h : s.context.stack.carryOut (s.operations p around) = .error f) :
    ∃ i length, Instruction.decode p.bytes s.context.pc = .ok (i, length) ∧
      s.turn p around = (s.begin i, some (.error ((s.begin i).context.fault f))) := by
  cases hdecode : Instruction.decode p.bytes s.context.pc with
  | error e =>
    rw [operations, hdecode] at h
    cases h
  | ok decoded =>
    obtain ⟨i, length⟩ := decoded
    refine ⟨i, length, rfl, ?_⟩
    cases hrequest : s.request? p with
    | some r =>
      -- A write that is answered leaves the run going on, so nothing was refused.
      obtain ⟨s', _, _, hturn, -⟩ := turn_of_request hrequest hdepth
      cases h.symm.trans (carryOut_of_turn hdepth hturn)
    | none =>
      rw [operations_of_decode hdecode, answered?, hrequest] at h
      have hrefused := (congrArg s.context.stack.carryOut (List.append_nil _)).symm.trans h
      cases s.asks_begin hdepth i with
      | refused hops hperform =>
        cases hops.symm.trans hrefused
        exact turn_eq_iff.2 (.failed hdecode hperform)
      | done hops hperform => cases hops.symm.trans hrefused

/-! ### Along a run -/

variable {taken : List (Progress σ)} {outcome : Progress σ × Except Fault Ending}

/-- A turn finds on the stack what the turns before it have left there. -/
theorem Runs.stack_eq (h : s.Runs p around taken outcome) (hdepth : s.context.stack.depth ≤ s.context.stack.limit)
    {before after : List (Progress σ)} {t : Progress σ} (htaken : taken = before ++ t :: after) :
    s.context.stack.carryOut (before.flatMap (operations p around)) = .ok t.context.stack := by
  induction h generalizing before with
  | last hturn =>
    cases before with
    | nil =>
      cases htaken
      rfl
    | cons b before =>
      obtain ⟨-, hnil⟩ := List.cons.inj htaken
      simp at hnil
  | next hturn hrest ih =>
    cases before with
    | nil =>
      cases htaken
      rfl
    | cons b before =>
      obtain ⟨rfl, hrest'⟩ := List.cons.inj htaken
      rw [List.flatMap_cons, Stack.carryOut_append, carryOut_of_turn hdepth hturn, Except.ok_bind]
      exact ih ((stack_of_turn hturn).depth_le hdepth) hrest'

/-- An operation that is refused is one of the last turn. -/
theorem Runs.refused (h : s.Runs p around taken outcome) (hdepth : s.context.stack.depth ≤ s.context.stack.limit)
    {f : StackFault} (hrefused : s.context.stack.carryOut (taken.flatMap (operations p around)) = .error f) :
    ∃ t i length, taken.getLast? = some t ∧ Instruction.decode p.bytes t.context.pc = .ok (i, length) ∧
      outcome.2 = .error ((t.begin i).context.fault f) := by
  induction h with
  | @last s s' ending hturn =>
    rw [List.flatMap_singleton] at hrefused
    obtain ⟨i, length, hdecode, hturn'⟩ := turn_of_refused hdepth hrefused
    cases hturn.symm.trans hturn'
    exact ⟨s, i, length, rfl, hdecode, rfl⟩
  | @next s s' rest outcome hturn hrest ih =>
    rw [List.flatMap_cons, Stack.carryOut_append, carryOut_of_turn hdepth hturn, Except.ok_bind] at hrefused
    obtain ⟨t, i, length, hlast, hdecode, hresult⟩ := ih ((stack_of_turn hturn).depth_le hdepth) hrefused
    refine ⟨t, i, length, ?_, hdecode, hresult⟩
    rw [List.getLast?_cons, hlast]
    rfl

end Progress

/-! ### What is indexed besides the stack -/

/-- Where an instruction indexes its own operands, these are long enough: a table holds its cases whole, and a block has the bytes that are compared, as many as the literal. -/
def Instruction.IndexesWithin : Instruction → Prop
  | .switch table => table.size * table.width.entrySize = table.entries.length
  | .compareBlock first last literal =>
    ∀ bytes : Block, ∃ row, Value.blockRange? bytes first last = some row ∧ row.length = literal.length
  | _ => True

theorem Instruction.indexesWithin_of_decode {bytes : Array UInt8} {offset length : Nat} {i : Instruction}
    (h : decode bytes offset = .ok (i, length)) : i.IndexesWithin := by
  obtain ⟨hcanonical, -⟩ := decode_eq_ok_iff.1 h
  cases i
  case switch table => exact Nat.div_mul_cancel (Nat.dvd_of_mod_eq_zero hcanonical.whole)
  case compareBlock first last literal =>
    obtain ⟨hfirst, hlast, hlength⟩ := compareBlock_operandError_eq_none_iff.1 hcanonical.operandError_eq
    have hfirst : first.toNat ≤ last.toNat := hfirst
    have hlast : last.toNat ≤ 15 := hlast
    intro bytes
    refine ⟨_, if_pos (by omega), ?_⟩
    rw [List.length_drop, List.length_take, Vector.length_toList, hlength]
    omega
  all_goals trivial

/-! ### Whole runs -/

namespace Program

/-- How a run under this limit keeps to the stack, the registers and the operands that there are. -/
structure Safe [Sink σ] (p : Program) (around : Surroundings) (stackLimit : Nat) (taken : List (Progress σ))
    (result : Except Fault Outcome) : Prop where
  depth_le : ∀ t ∈ taken, t.context.stack.depth ≤ min stackLimit 32
  /-- The operations of the turns are what happens to the stack: each turn finds what those before it have left. -/
  found : ∀ before t after, taken = before ++ t :: after →
    (Stack.empty stackLimit).carryOut (before.flatMap (Progress.operations p around)) = .ok t.context.stack
  /-- After any number of them the stack is within the limit, and the array that stores it was not left. -/
  stored : ∀ ops, ops <+: taken.flatMap (Progress.operations p around) →
    (∃ m s, (Slots.empty stackLimit).carryOut ops = some (.ok m) ∧ (Stack.empty stackLimit).carryOut ops = .ok s ∧
        m.Holds s ∧ s.depth ≤ min stackLimit 32) ∨
      ∃ f, (Slots.empty stackLimit).carryOut ops = some (.error f) ∧ (Stack.empty stackLimit).carryOut ops = .error f
  /-- An operation that is refused is one of the last turn, and what the run fails for. -/
  refused : ∀ f, (Stack.empty stackLimit).carryOut (taken.flatMap (Progress.operations p around)) = .error f →
    ∃ t i length, taken.getLast? = some t ∧ Instruction.decode p.bytes t.context.pc = .ok (i, length) ∧
      result = .error ((t.begin i).context.fault f)
  /-- A register that there is not ends the run in place of an access. -/
  registers : ∀ t ∈ taken, ∀ index length,
    Instruction.decode p.bytes t.context.pc = .ok (.loadRegister index, length) ∨
      Instruction.decode p.bytes t.context.pc = .ok (.storeRegister index, length) →
    index.toNat < 16 ∨ taken.getLast? = some t ∧
      (result = .error (.invalidRegister index) ∨ result = .error (.stackUnderflow .stReg 1 0))
  /-- The bytes of an instruction lie in the program, and where it indexes its operands they are long enough. -/
  indexed : ∀ t ∈ taken, ∀ i length, Instruction.decode p.bytes t.context.pc = .ok (i, length) →
    t.context.pc + length ≤ p.size ∧ i.IndexesWithin
  /-- Only an instruction that leaves more than it takes overflows the stack. -/
  overflow : ∀ limit, result = .error (.stackOverflow limit) →
    limit = min stackLimit 32 ∧
      ∃ t i length, taken.getLast? = some t ∧ Instruction.decode p.bytes t.context.pc = .ok (i, length) ∧ i.grows = true

variable {state : RuleState} {trigger : Option Trigger} {sink : σ} {clock : Clock} {config : Config}

variable [Sink σ]

theorem last_of_failed {t : Progress σ} (ht : t ∈ p.turns state trigger sink clock config) {i : Instruction}
    {length : Nat} {f : Fault} (hdecode : Instruction.decode p.bytes t.context.pc = .ok (i, length))
    (hperform : (t.begin i).context.perform ⟨state, clock⟩ i = .error f) :
    (p.turns state trigger sink clock config).getLast? = some t ∧
      (p.execute state trigger sink clock config).result = .error f := by
  obtain ⟨_, outcome, -, hruns, hexecute⟩ := begun_of_mem ht
  obtain ⟨hlast, rfl⟩ := hruns.last_of_turn ht (Progress.turn_eq_iff.2 (.failed hdecode hperform))
  rw [hexecute]
  exact ⟨hlast, rfl⟩

theorem stack_of_turns {before after : List (Progress σ)} {t : Progress σ}
    (htaken : p.turns state trigger sink clock config = before ++ t :: after) :
    (Stack.empty config.stackLimit).carryOut (before.flatMap (Progress.operations p ⟨state, clock⟩)) =
      .ok t.context.stack := by
  have ht : t ∈ p.turns state trigger sink clock config := by simp [htaken]
  obtain ⟨s, outcome, henter, hruns, -⟩ := begun_of_mem ht
  rw [← stack_of_entered henter]
  exact hruns.stack_eq (depth_le_of_entered henter) htaken

theorem result_of_refused {f : StackFault}
    (h : (Stack.empty config.stackLimit).carryOut
      ((p.turns state trigger sink clock config).flatMap (Progress.operations p ⟨state, clock⟩)) = .error f) :
    ∃ t i length, (p.turns state trigger sink clock config).getLast? = some t ∧
      Instruction.decode p.bytes t.context.pc = .ok (i, length) ∧
      (p.execute state trigger sink clock config).result = .error ((t.begin i).context.fault f) := by
  rcases henter : p.entered state trigger sink config with ⟨s, g | ⟨⟩⟩
  · rw [turns_of_refused henter] at h
    cases h
  · rw [turns_of_begun henter, ← stack_of_entered henter] at h
    obtain ⟨t, i, length, hlast, hdecode, hresult⟩ :=
      (Progress.runs_finish s).refused (depth_le_of_entered henter) h
    rw [turns_of_begun henter, execute_of_begun henter]
    exact ⟨t, i, length, hlast, hdecode, Report.result_of_error hresult⟩

theorem register_lt_or_last {t : Progress σ} (ht : t ∈ p.turns state trigger sink clock config) {index : UInt8}
    {length : Nat} (hdecode : Instruction.decode p.bytes t.context.pc = .ok (.loadRegister index, length) ∨
      Instruction.decode p.bytes t.context.pc = .ok (.storeRegister index, length)) :
    index.toNat < 16 ∨ (p.turns state trigger sink clock config).getLast? = some t ∧
      ((p.execute state trigger sink clock config).result = .error (.invalidRegister index) ∨
        (p.execute state trigger sink clock config).result = .error (.stackUnderflow .stReg 1 0)) := by
  rcases Nat.lt_or_ge index.toNat 16 with hindex | hindex
  · exact .inl hindex
  · refine .inr ?_
    rcases hdecode with hdecode | hdecode
    · obtain ⟨hlast, hresult⟩ := last_of_failed ht hdecode (Context.perform_loadRegister_of_ge hindex)
      exact ⟨hlast, .inl hresult⟩
    · rcases Context.perform_storeRegister_of_ge hindex with hperform | hperform
      · obtain ⟨hlast, hresult⟩ := last_of_failed ht hdecode hperform
        exact ⟨hlast, .inl hresult⟩
      · obtain ⟨hlast, hresult⟩ := last_of_failed ht hdecode hperform
        exact ⟨hlast, .inr hresult⟩

theorem grows_of_overflow {limit : Nat}
    (h : (p.execute state trigger sink clock config).result = .error (.stackOverflow limit)) :
    limit = min config.stackLimit 32 ∧
      ∃ t i length, (p.turns state trigger sink clock config).getLast? = some t ∧
        Instruction.decode p.bytes t.context.pc = .ok (i, length) ∧ i.grows = true := by
  obtain ⟨s, hrun⟩ := runToEnd_of_error h
  have hclass : (Fault.stackOverflow limit).faultClass ≠ .malformedProgram := by simp [Fault.faultClass]
  obtain ⟨t, i, hlast, hfailed⟩ := failedIn_of_runToEnd hrun (.inl hclass)
  obtain ⟨length, hdecode⟩ := hfailed.decoded
  rw [hfailed.pc_eq] at hdecode
  rcases hfailed.reason with hfails | ⟨_, -, hout⟩
  · cases hfails with
    | overflow hgrows hroom =>
      have hlimit := (depth_le_of_turns t (List.mem_of_getLast? hlast)).1
      exact ⟨hlimit, t, i, length, hlast, hdecode, i.grows_iff.2 hgrows⟩
  · cases hout

/-- A run stays within its stack, its registers and the operands of its instructions, whatever the limit of the stack; and it overflows only by instructions that leave more than they take. -/
theorem execute_safe (p : Program) (state : RuleState) (trigger : Option Trigger) (sink : σ) (clock : Clock)
    (config : Config) :
    p.Runs state trigger sink clock config (p.turns state trigger sink clock config)
        (p.execute state trigger sink clock config) ∧
      p.Safe ⟨state, clock⟩ config.stackLimit (p.turns state trigger sink clock config)
        (p.execute state trigger sink clock config).result := by
  refine ⟨runs_execute, ?_⟩
  constructor
  case depth_le =>
    intro t ht
    obtain ⟨hlimit, hdepth⟩ := depth_le_of_turns t ht
    exact Nat.le_trans hdepth (Nat.le_of_eq hlimit)
  case found => exact fun before t after => stack_of_turns
  case stored => exact fun ops _ => Slots.carryOut_empty config.stackLimit ops
  case refused => exact fun f => result_of_refused
  case registers => exact fun t ht index length => register_lt_or_last ht
  case indexed =>
    intro t _ i length hdecode
    exact ⟨(Instruction.decode_bounds hdecode).2, Instruction.indexesWithin_of_decode hdecode⟩
  case overflow => exact fun limit => grows_of_overflow

end Program

end RuleMachine
