import RuleMachine.Proofs.Run.Safety

/-!
# Where the undefined value comes from

No operator makes the undefined value: a result that is undefined was an operand, the value of the packet or what a register held. `traced_of_effect` says so for one instruction, so the values on a stack and the kinds that faults tell go back to these three. A run that gets none from its packet, and loads only registers it has stored to before, therefore never has the undefined value on its stack, although stack and registers are full of it to begin with.
-/

namespace RuleMachine

/-! ### What an instruction passes on -/

namespace Instruction

/-- The register that the instruction stores to. -/
def stored? : Instruction → Option Nat
  | storeRegister index => some index.toNat
  | _ => none

/-- Where a result of the instruction can come from. -/
inductive Gives (seen : Sight) (i : Instruction) (operands : List Value) : Value → Prop
  | made {v : Value} (hv : v ≠ .undefined) : Gives seen i operands v
  | operand {v : Value} (hv : v ∈ operands) : Gives seen i operands v
  | trigger {t : Trigger} (hi : i = .loadSourceValue) (ht : seen.trigger = some t) : Gives seen i operands t.value
  | register {index : UInt8} {v : Value} (hi : i = .loadRegister index) (hv : seen.registers[index.toNat]? = some v) :
    Gives seen i operands v

/-- Every result has a source, and only a store changes a register, to its operand. -/
structure Effect.Traced (seen : Sight) (i : Instruction) (operands : List Value) (e : Instruction.Effect) : Prop where
  results : ∀ v ∈ e.results, i.Gives seen operands v
  registers : ∀ k v, e.registers[k]? = some v →
    i.stored? ≠ some k ∧ seen.registers[k]? = some v ∨ i.stored? = some k ∧ v ∈ operands

variable {seen : Sight} {i : Instruction} {operands : List Value} {e : Instruction.Effect}

theorem traced_of_kept (hi : i.stored? = none) {results : List Value} {next : Next}
    (hresults : ∀ v ∈ results, i.Gives seen operands v) :
    Effect.Traced seen i operands ⟨results, seen.registers, next⟩ := by
  refine ⟨hresults, ?_⟩
  intro k v hv
  exact .inl ⟨by simp [hi], hv⟩

theorem traced_of_value (hi : i.stored? = none) {v : Value} (hv : i.Gives seen operands v) :
    Effect.Traced seen i operands (seen.value v) :=
  traced_of_kept hi (by simpa using hv)

theorem traced_of_made (hi : i.stored? = none) {v : Value} (hv : v ≠ .undefined) :
    Effect.Traced seen i operands (seen.value v) :=
  traced_of_value hi (.made hv)

theorem traced_of_operator (hi : i.stored? = none) {made : Except Fault Value}
    (hmade : ∀ v, made = .ok v → v.kind.isArithmetic = true) (h : made.map seen.value = .ok e) :
    Effect.Traced seen i operands e := by
  obtain ⟨v, hv, rfl⟩ := Except.map_eq_ok_iff.1 h
  exact traced_of_made hi (Value.ne_undefined_of_arithmetic (hmade v hv))

theorem traced_of_goOn (hi : i.stored? = none) (next : Next) : Effect.Traced seen i operands (seen.goOn next) :=
  traced_of_kept hi (by simp)

theorem traced_of_fromTrigger (hi : i.stored? = none) {opcode : Opcode} {make : Trigger → Value}
    (hmake : ∀ t, seen.trigger = some t → i.Gives seen operands (make t)) (h : seen.fromTrigger opcode make = .ok e) :
    Effect.Traced seen i operands e := by
  unfold Sight.fromTrigger at h
  split at h <;> cases h
  next t ht => exact traced_of_value hi (hmake t ht)

theorem traced_of_intoRegister {index : UInt8} {v : Value} (h : seen.intoRegister index v = .ok e) :
    Effect.Traced seen (.storeRegister index) [v] e := by
  unfold Sight.intoRegister at h
  split at h <;> cases h
  refine ⟨by simp, ?_⟩
  intro k w hw
  rw [Vector.getElem?_set] at hw
  split at hw
  · next hk =>
    cases hw
    exact .inr ⟨congrArg some hk, List.mem_singleton_self v⟩
  · next hk => exact .inl ⟨fun hstored => hk (Option.some.inj hstored), hw⟩

/-- What an instruction comes to has nothing in it that was not an operand, looked at or made. -/
theorem traced_of_effect (h : i.effect seen operands = .ok e) : Effect.Traced seen i operands e := by
  cases i
  case loadSourceAddress | loadSourceEndpoint =>
    exact traced_of_fromTrigger rfl (fun _ _ => .made (by simp)) h
  case loadSourceValue => exact traced_of_fromTrigger rfl (fun _ ht => .trigger rfl ht) h
  case loadRegister index =>
    unfold effect Sight.fromRegister at h
    dsimp only at h
    split at h <;> cases h
    next v hv => exact traced_of_value rfl (.register rfl hv)
  case storeRegister index =>
    obtain ⟨v, rfl, hv⟩ := one_eq_ok_iff.1 h
    exact traced_of_intoRegister hv
  case arithmetic op =>
    obtain ⟨a, b, -, hab⟩ := two_eq_ok_iff.1 h
    exact traced_of_operator rfl (fun _ => ArithmeticOp.isArithmetic_of_apply) hab
  case bitwise op =>
    obtain ⟨a, b, -, hab⟩ := two_eq_ok_iff.1 h
    exact traced_of_operator rfl (fun _ => BitOp.isArithmetic_of_apply) hab
  case datetimeDiff =>
    obtain ⟨a, b, -, hab⟩ := two_eq_ok_iff.1 h
    exact traced_of_operator rfl (fun _ => Value.isArithmetic_of_datetimeDiff) hab
  case datetimeCompare order mask =>
    obtain ⟨a, b, -, hab⟩ := two_eq_ok_iff.1 h
    exact traced_of_operator rfl (fun _ => Value.isArithmetic_of_datetimeCompare) hab
  case not =>
    obtain ⟨v, -, hv⟩ := one_eq_ok_iff.1 h
    exact traced_of_operator rfl (fun _ => Value.isArithmetic_of_complement) hv
  case compareBlock first last literal =>
    obtain ⟨v, -, hv⟩ := one_eq_ok_iff.1 h
    exact traced_of_operator rfl (fun _ => Value.isArithmetic_of_compareBlock) hv
  case compareUnspecified | compareLoopback =>
    obtain ⟨v, -, hv⟩ := one_eq_ok_iff.1 h
    exact traced_of_operator rfl (fun _ => Value.isArithmetic_of_compareAddress) hv
  case convert target =>
    obtain ⟨v, -, hv⟩ := one_eq_ok_iff.1 h
    exact traced_of_operator rfl (fun _ => Value.isArithmetic_of_convert) hv
  case dup | dupAt =>
    obtain ⟨v, hv, rfl⟩ := deepest_eq_ok_iff.1 h
    refine traced_of_kept rfl (List.forall_mem_cons.2 ⟨.operand (List.mem_of_getElem? hv), ?_⟩)
    intro w hw
    exact .operand hw
  case rot | rotAt =>
    obtain ⟨v, hv, rfl⟩ := deepest_eq_ok_iff.1 h
    refine traced_of_kept rfl (List.forall_mem_cons.2 ⟨.operand (List.mem_of_getElem? hv), ?_⟩)
    intro w hw
    exact .operand (List.dropLast_subset operands hw)
  case decompose mask =>
    obtain ⟨v, -, hv⟩ := one_eq_ok_iff.1 h
    unfold Sight.decomposed at hv
    split at hv <;> cases hv
    refine traced_of_kept rfl ?_
    intro w hw
    obtain ⟨n, -, rfl⟩ := List.mem_map.1 (List.mem_reverse.1 hw)
    exact .made (by simp)
  case typeTag =>
    obtain ⟨v, -, hv⟩ := one_eq_ok_iff.1 h
    cases hv
    exact traced_of_made rfl (by simp)
  case pop =>
    obtain ⟨v, -, hv⟩ := one_eq_ok_iff.1 h
    cases hv
    exact traced_of_goOn rfl .advance
  case switch | changeState =>
    obtain ⟨v, -, hv⟩ := one_eq_ok_iff.1 h
    obtain ⟨n, -, rfl⟩ := Except.map_eq_ok_iff.1 hv
    exact traced_of_goOn rfl _
  case write =>
    obtain ⟨a, b, -, hab⟩ := two_eq_ok_iff.1 h
    obtain ⟨n, -, rfl⟩ := Except.map_eq_ok_iff.1 hab
    exact traced_of_goOn rfl _
  case jump condition skip short =>
    cases condition with
    | always =>
      cases h
      exact traced_of_goOn rfl (.skip skip)
    | zero | nonZero =>
      obtain ⟨v, -, hv⟩ := one_eq_ok_iff.1 h
      unfold Sight.jumped at hv
      split at hv <;> cases hv
      exact traced_of_goOn rfl _
  case stay =>
    cases h
    exact traced_of_goOn rfl .stay
  all_goals
    cases h
    exact traced_of_made rfl (by simp)

/-- What is pushed is a result. -/
theorem mem_results_of_operations {v : Value} (h : .push v ∈ i.operations seen operands) :
    ∃ e, i.effect seen operands = .ok e ∧ v ∈ e.results := by
  have hpushes (h : .push v ∈ Stack.taking i.takes ++
      (i.effect seen operands).toOption.elim [] fun e => e.results.reverse.map .push) :
      ∃ e, i.effect seen operands = .ok e ∧ v ∈ e.results := by
    rcases List.mem_append.1 h with htaking | hpushing
    · unfold Stack.taking at htaking
      split at htaking <;> simp at htaking
    · cases heffect : i.effect seen operands with
      | error f => simp [heffect, Except.toOption] at hpushing
      | ok e => exact ⟨e, rfl, by simpa [heffect, Except.toOption] using hpushing⟩
  cases i
  case dup | dupAt | rot | rotAt => cases List.mem_singleton.1 h
  all_goals exact hpushes h

end Instruction

namespace Stack

variable {s s' : Stack}

/-- A value on the stack was there before or is the one that was pushed. -/
theorem mem_of_apply {op : Operation} {given : List Value} (h : s.apply op = .ok (given, s')) {v : Value}
    (hv : v ∈ s'.values) : v ∈ s.values ∨ op = .push v := by
  cases op with
  | push w =>
    obtain ⟨_, hpush, heq⟩ := Except.map_eq_ok_iff.1 h
    cases heq
    unfold push at hpush
    split at hpush <;> cases hpush
    rcases List.mem_cons.1 hv with rfl | hv
    · exact .inr rfl
    · exact .inl hv
  | popMany n =>
    simp only [apply, popMany] at h
    split at h <;> cases h
    exact .inl (List.mem_of_mem_drop hv)
  | dup offset =>
    obtain ⟨_, hdup, heq⟩ := Except.map_eq_ok_iff.1 h
    cases heq
    unfold dup push at hdup
    split at hdup
    · next w hw =>
      split at hdup <;> cases hdup
      rcases List.mem_cons.1 hv with rfl | hv
      · exact .inl (List.mem_of_getElem? hw)
      · exact .inl hv
    · cases hdup
  | rot offset =>
    obtain ⟨_, hrot, heq⟩ := Except.map_eq_ok_iff.1 h
    cases heq
    unfold rot at hrot
    split at hrot <;> cases hrot
    next w hw =>
      rcases List.mem_cons.1 hv with rfl | hv
      · exact .inl (List.mem_of_getElem? hw)
      · exact .inl (List.mem_of_mem_eraseIdx hv)

theorem mem_of_carryOut {ops : List Operation} (h : s.carryOut ops = .ok s') {v : Value} (hv : v ∈ s'.values) :
    v ∈ s.values ∨ .push v ∈ ops := by
  induction ops generalizing s with
  | nil =>
    cases h
    exact .inl hv
  | cons op ops ih =>
    obtain ⟨⟨given, s₁⟩, happly, hrest⟩ := Except.bind_eq_ok_iff.1 h
    rcases ih hrest with hbefore | hpushed
    · rcases mem_of_apply happly hbefore with hv | rfl
      · exact .inl hv
      · exact .inr List.mem_cons_self
    · exact .inr (List.mem_cons_of_mem op hpushed)

end Stack

/-! ### One turn -/

/-- What the instruction loads, if it loads something that can be undefined, is defined. -/
structure Sight.Defined (seen : Sight) (i : Instruction) : Prop where
  trigger : i = .loadSourceValue → ∀ t, seen.trigger = some t → t.value ≠ .undefined
  register : ∀ index, i = .loadRegister index → seen.registers[index.toNat]? ≠ some .undefined

theorem Instruction.Gives.ne_undefined {seen : Sight} {i : Instruction} {operands : List Value} {v : Value}
    (h : i.Gives seen operands v) (hseen : seen.Defined i) (hoperands : .undefined ∉ operands) : v ≠ .undefined := by
  cases h with
  | made hv => exact hv
  | operand hv => exact ne_of_mem_of_not_mem hv hoperands
  | trigger hi ht => exact hseen.trigger hi _ ht
  | register hi hv =>
    rintro rfl
    exact hseen.register _ hi hv

theorem Context.registers_of_push {c c' : Context} {v : Value} (h : c.push v = .ok c') : c'.registers = c.registers := by
  unfold push withStack at h
  split at h <;> cases h
  rfl

variable {σ : Type} {p : Program} {around : Surroundings}

namespace Progress

/-- There is nothing undefined that the turn from here could come upon. -/
structure Defined (p : Program) (around : Surroundings) (s : Progress σ) : Prop where
  values : .undefined ∉ s.context.stack.values
  seen : ∀ i length, Instruction.decode p.bytes s.context.pc = .ok (i, length) → (s.context.sight around).Defined i

variable {s s' : Progress σ}

theorem Defined.operands (h : s.Defined p around) (n : Nat) : .undefined ∉ s.context.stack.values.take n :=
  fun hmem => h.values (List.mem_of_mem_take hmem)

variable [Sink σ]

theorem Defined.not_pushed (h : s.Defined p around) : .push .undefined ∉ s.operations p around := by
  intro hpush
  cases hdecode : Instruction.decode p.bytes s.context.pc with
  | error e => simp [operations, hdecode] at hpush
  | ok decoded =>
    obtain ⟨i, length⟩ := decoded
    rw [operations_of_decode hdecode] at hpush
    rcases List.mem_append.1 hpush with hpush | hanswer
    · obtain ⟨e, heffect, hv⟩ := Instruction.mem_results_of_operations hpush
      have hgives := (Instruction.traced_of_effect heffect).results _ hv
      exact hgives.ne_undefined (h.seen i length hdecode) (h.operands i.takes) rfl
    · simp at hanswer

/-- What is on the stack after the turn was there before or was pushed, so it is not undefined. -/
theorem Defined.values_of_turn (h : s.Defined p around) (hdepth : s.context.stack.depth ≤ s.context.stack.limit)
    (hturn : s.turn p around = (s', none)) : .undefined ∉ s'.context.stack.values := by
  intro hmem
  rcases Stack.mem_of_carryOut (carryOut_of_turn hdepth hturn) hmem with hbefore | hpushed
  · exact h.values hbefore
  · exact h.not_pushed hpushed

/-- A turn that leaves the run going on has made the effect of its instruction. -/
theorem exists_effect_of_turn (hdepth : s.context.stack.depth ≤ s.context.stack.limit)
    (h : s.turn p around = (s', none)) :
    ∃ i length e, Instruction.decode p.bytes s.context.pc = .ok (i, length) ∧
      i.effect (s.context.sight around) (s.context.stack.values.take i.takes) = .ok e ∧
      s'.context.registers = e.registers := by
  have hperformed (i : Instruction) (c : Context) (next : Next)
      (hperform : (s.begin i).context.perform around i = .ok (c, next)) :
      ∃ e, i.effect (s.context.sight around) (s.context.stack.values.take i.takes) = .ok e ∧
        c.registers = e.registers := by
    have hiff := @Context.perform_eq_ok_iff (s.begin i).context c i around next rfl hdepth
    obtain ⟨e, heffect, -, -, rfl⟩ := hiff.1 hperform
    exact ⟨e, heffect, rfl⟩
  rw [turn_eq_iff] at h
  cases h with
  | moved hdecode hperform hnext hle =>
    obtain ⟨e, heffect, hregisters⟩ := hperformed _ _ _ hperform
    exact ⟨_, _, e, hdecode, heffect, hregisters⟩
  | wrote hdecode hperform hpush =>
    obtain ⟨e, heffect, hregisters⟩ := hperformed _ _ _ hperform
    exact ⟨_, _, e, hdecode, heffect, (Context.registers_of_push hpush).trans hregisters⟩

/-- A register is undefined after the turn only if it was before and the turn has not stored to it. -/
theorem Defined.register_of_turn (h : s.Defined p around) (hdepth : s.context.stack.depth ≤ s.context.stack.limit)
    (hturn : s.turn p around = (s', none)) {k : Nat} (hk : s'.context.registers[k]? = some .undefined) :
    s.context.registers[k]? = some .undefined ∧ ∀ a, s.placed? p = some a → a.instruction.stored? ≠ some k := by
  obtain ⟨i, length, e, hdecode, heffect, hregisters⟩ := exists_effect_of_turn hdepth hturn
  rw [hregisters] at hk
  rcases (Instruction.traced_of_effect heffect).registers k _ hk with ⟨hstored, hbefore⟩ | ⟨-, hoperand⟩
  · refine ⟨hbefore, ?_⟩
    intro a ha
    obtain ⟨hpc, hplaced⟩ := placed?_eq_some_iff.1 ha
    rw [← hpc, hdecode] at hplaced
    cases a
    cases hplaced
    exact hstored
  · exact absurd hoperand (h.operands i.takes)

/-- A store puts a value into its register that is not undefined. -/
theorem Defined.stored_of_turn (h : s.Defined p around) (hdepth : s.context.stack.depth ≤ s.context.stack.limit)
    {index : UInt8} {length : Nat}
    (hdecode : Instruction.decode p.bytes s.context.pc = .ok (.storeRegister index, length))
    (hturn : s.turn p around = (s', none)) :
    ∃ v, v ≠ .undefined ∧ s'.context.registers[index.toNat]? = some v := by
  obtain ⟨i, length', e, hdecode', heffect, hregisters⟩ := exists_effect_of_turn hdepth hturn
  cases hdecode.symm.trans hdecode'
  obtain ⟨v, hv, hinto⟩ := Instruction.one_eq_ok_iff.1 heffect
  have hdefined : v ≠ .undefined := by
    have hoperands := h.operands (Instruction.storeRegister index).takes
    rw [hv] at hoperands
    rintro rfl
    exact hoperands (List.mem_singleton_self _)
  unfold Sight.intoRegister at hinto
  split at hinto <;> cases hinto
  next hindex => exact ⟨v, hdefined, by rw [hregisters, Vector.getElem?_set_self]⟩

omit [Sink σ] in
theorem Defined.written (h : s.Defined p around) {endpoint : UInt32} {v : Value}
    (hrequest : s.request? p = some (endpoint, v)) : v ≠ .undefined := by
  obtain ⟨-, w, rest, hvalues, -⟩ := request?_eq_some_iff.1 hrequest
  have hundefined := h.values
  rw [hvalues] at hundefined
  exact ne_of_mem_of_not_mem List.mem_cons_self hundefined

/-- A kind that is not accepted is that of a value on the stack. -/
theorem exists_kind_of_turn (hdepth : s.context.stack.depth ≤ s.context.stack.limit) {opcode : Opcode} {found : Kind}
    (h : s.turn p around = (s', some (.error (.typeMismatch opcode found)))) :
    ∃ v ∈ s.context.stack.values, v.kind = found := by
  generalize hending : (some (.error (.typeMismatch opcode found)) : Option (Except Fault Ending)) = ending at h
  rw [turn_eq_iff] at h
  cases h with
  | undecoded hdecode => cases hending
  | @failed i length f hdecode hperform =>
    cases hending
    rcases (@Context.perform_eq_error_iff (s.begin i).context i around rfl hdepth _).1 hperform with
      heffect | ⟨-, -, hoverflow⟩
    · cases Instruction.rejects_of_effect (s.context.length_operands i) heffect with
      | kind hv => exact ⟨_, List.mem_of_mem_take hv, rfl⟩
    · cases hoverflow
  | moved hdecode hperform hnext hle => cases hending
  | left hdecode hperform hnext hlt => cases hending
  | wrote hdecode hperform hpush => cases hending
  | unanswered hdecode hperform hpush => exact absurd hpush (answer_ne_error hdepth hdecode hperform _)
  | stayed hdecode hperform => cases hending
  | changed hdecode hperform => cases hending

end Progress

/-! ### Whole runs -/

/-- Every register that is loaded has been stored to before. -/
def Program.LoadsStored (executed : List Placed) : Prop :=
  ∀ before a after, executed = before ++ a :: after →
    ∀ index : UInt8, a.instruction = .loadRegister index → index.toNat < 16 →
      ∃ b ∈ before, b.instruction = .storeRegister index

namespace Progress

open Program (LoadsStored)

variable {s : Progress σ} {taken : List (Progress σ)} {outcome : Progress σ × Except Fault Ending}

/-- The turn is defined if its stack and the packet are, and so are all registers that were stored to before it. -/
theorem defined_of_stored (htrigger : ∀ t, s.context.trigger = some t → t.value ≠ .undefined)
    (hvalues : .undefined ∉ s.context.stack.values) {before : List Placed} {rest : List (Progress σ)}
    (hstored : ∀ b ∈ before, ∀ k, b.instruction.stored? = some k → s.context.registers[k]? ≠ some .undefined)
    (hloads : LoadsStored (before ++ placed p (s :: rest))) : s.Defined p around := by
  refine ⟨hvalues, ?_⟩
  intro i length hdecode
  refine ⟨fun _ => htrigger, ?_⟩
  rintro index rfl hundefined
  have hindex : index.toNat < 16 := by
    by_contra hge
    rw [Context.sight, Vector.getElem?_eq_none (Nat.not_lt.1 hge)] at hundefined
    cases hundefined
  have hplaced : s.placed? p = some ⟨s.context.pc, .loadRegister index, length⟩ :=
    placed?_eq_some_iff.2 ⟨rfl, hdecode⟩
  rw [placed_cons_of_some hplaced] at hloads
  obtain ⟨b, hb, hstore⟩ := hloads before _ _ rfl index rfl hindex
  exact hstored b hb index.toNat (congrArg Instruction.stored? hstore) hundefined

variable [Sink σ]

theorem Runs.defined (h : s.Runs p around taken outcome) (hdepth : s.context.stack.depth ≤ s.context.stack.limit)
    (htrigger : ∀ t, s.context.trigger = some t → t.value ≠ .undefined)
    (hvalues : .undefined ∉ s.context.stack.values) (before : List Placed)
    (hstored : ∀ b ∈ before, ∀ k, b.instruction.stored? = some k → s.context.registers[k]? ≠ some .undefined)
    (hloads : LoadsStored (before ++ placed p taken)) : ∀ t ∈ taken, t.Defined p around := by
  induction h generalizing before with
  | @last s s' ending hturn =>
    have hdefined : s.Defined p around := defined_of_stored htrigger hvalues hstored hloads
    simpa using hdefined
  | @next s s' rest outcome hturn hrest ih =>
    have hdefined : s.Defined p around := defined_of_stored htrigger hvalues hstored hloads
    obtain ⟨a, ha, -⟩ := placed_of_turn hturn
    -- What the turn has stored counts as stored to from now on.
    have hstored' : ∀ b ∈ before ++ [a], ∀ k, b.instruction.stored? = some k →
        s'.context.registers[k]? ≠ some .undefined := by
      intro b hb k hk hundefined
      obtain ⟨hbefore, hother⟩ := hdefined.register_of_turn hdepth hturn hundefined
      rcases List.mem_append.1 hb with hb | hb
      · exact hstored b hb k hk hbefore
      · obtain rfl := List.mem_singleton.1 hb
        exact hother b ha hk
    rw [placed_cons_of_some ha, List.append_cons] at hloads
    have htrigger' : ∀ t, s'.context.trigger = some t → t.value ≠ .undefined := by
      rw [trigger_of_turn hturn]
      exact htrigger
    have hrest' := ih ((stack_of_turn hturn).depth_le hdepth) htrigger' (hdefined.values_of_turn hdepth hturn)
      (before ++ [a]) hstored' hloads
    exact List.forall_mem_cons.2 ⟨hdefined, hrest'⟩

end Progress

namespace Program

/-- The undefined value is nowhere in the run: the operations on the stack never put it there, no turn finds it, no store keeps it, the sink does not get it and no fault tells of it. -/
structure NeverUndefined [Sink σ] (p : Program) (around : Surroundings) (stackLimit : Nat) (taken : List (Progress σ))
    (writes : List Write) (result : Except Fault Outcome) : Prop where
  stacked : ∀ ops, ops <+: taken.flatMap (Progress.operations p around) →
    ∀ s, (Stack.empty stackLimit).carryOut ops = .ok s → .undefined ∉ s.toList
  found : ∀ t ∈ taken, .undefined ∉ t.context.stack.toList
  stored : ∀ t ∈ taken, ∀ index length,
    Instruction.decode p.bytes t.context.pc = .ok (.storeRegister index, length) →
      ∀ t', t.turn p around = (t', none) → ∃ v, v ≠ .undefined ∧ t'.context.registers[index.toNat]? = some v
  written : ∀ w ∈ writes, w.value ≠ .undefined
  blamed : ∀ opcode found, result = .error (.typeMismatch opcode found) → found ≠ .undefined

variable [Sink σ] {state : RuleState} {trigger : Option Trigger} {sink : σ} {clock : Clock} {config : Config}

theorem defined_of_turns (htrigger : ∀ t, trigger = some t → t.value ≠ .undefined)
    (hloads : LoadsStored (p.executed state trigger sink clock config)) :
    ∀ t ∈ p.turns state trigger sink clock config, t.Defined p ⟨state, clock⟩ := by
  intro t ht
  obtain ⟨s, outcome, henter, hruns, -⟩ := begun_of_mem ht
  have hdepth := depth_le_of_entered henter
  obtain ⟨offset, -, -, rfl⟩ := entered_eq_ok_iff.1 henter
  exact hruns.defined hdepth htrigger List.not_mem_nil [] (by simp) hloads t ht

/-- The last turn of a run that fails fails with its fault. -/
theorem exists_turn_of_error {f : Fault} (hclass : f.faultClass ≠ .malformedProgram)
    (h : (p.execute state trigger sink clock config).result = .error f) :
    ∃ t ∈ p.turns state trigger sink clock config, ∃ s, t.turn p ⟨state, clock⟩ = (s, some (.error f)) := by
  obtain ⟨s, hrun⟩ := runToEnd_of_error h
  rcases henter : p.entered state trigger sink config with ⟨s₀, g | ⟨⟩⟩
  · cases (runToEnd_of_refused henter).symm.trans hrun
    exact absurd (faultClass_of_refused henter) hclass
  · obtain ⟨t, hlast, hturn⟩ := exists_last_of_begun clock henter
    rw [hrun] at hturn
    exact ⟨t, List.mem_of_getLast? hlast, s, hturn⟩

/-- In a run whose packet, if there is one, has a value and which loads only registers that it has stored to, nothing is ever undefined. -/
theorem execute_never_undefined (p : Program) (state : RuleState) (trigger : Option Trigger) (sink : σ) (clock : Clock)
    (config : Config) (htrigger : ∀ t, trigger = some t → t.value ≠ .undefined)
    (hloads : LoadsStored (p.executed state trigger sink clock config)) :
    p.Runs state trigger sink clock config (p.turns state trigger sink clock config)
        (p.execute state trigger sink clock config) ∧
      p.NeverUndefined ⟨state, clock⟩ config.stackLimit (p.turns state trigger sink clock config)
        (p.writes state trigger sink clock config) (p.execute state trigger sink clock config).result := by
  have hdefined := defined_of_turns htrigger hloads
  refine ⟨runs_execute, ?_⟩
  constructor
  case stacked =>
    intro ops hops s hcarry hundefined
    rcases Stack.mem_of_carryOut hcarry (List.mem_reverse.1 hundefined) with hempty | hpushed
    · cases hempty
    · obtain ⟨t, ht, hpush⟩ := List.mem_flatMap.1 (hops.subset hpushed)
      exact (hdefined t ht).not_pushed hpush
  case found =>
    intro t ht hundefined
    exact (hdefined t ht).values (List.mem_reverse.1 hundefined)
  case stored =>
    intro t ht index length hdecode t' hturn
    exact (hdefined t ht).stored_of_turn (depth_le_of_turns t ht).2 hdecode hturn
  case written =>
    intro w hw
    rw [writes_eq_answered] at hw
    obtain ⟨t, ht, hanswered⟩ := List.mem_filterMap.1 hw
    obtain ⟨⟨endpoint, v⟩, hrequest, rfl⟩ := Option.map_eq_some_iff.1 hanswered
    exact (hdefined t ht).written hrequest
  case blamed =>
    rintro opcode found hresult rfl
    obtain ⟨t, ht, s, hturn⟩ := exists_turn_of_error (by simp [Fault.faultClass]) hresult
    obtain ⟨v, hv, hkind⟩ := Progress.exists_kind_of_turn (depth_le_of_turns t ht).2 hturn
    cases v <;> cases hkind
    exact (hdefined t ht).values hv

/-- A program that keeps the value of a packet in a register and changes to the state that it loads from there. -/
def storing : Program := ⟨#[0, 0, 5, 0, 5, 2, 14, 3, 13, 3, 59], by decide⟩

/-- A packet with the value 7. -/
def seven : Trigger := ⟨Vector.replicate 16 0, 2, .u8 7⟩

/-- What was stored is loaded, so nothing undefined is met. -/
theorem execute_never_undefined_register :
    storing.executed Sample.state (some seven) LoggingSink.mk Sample.clock {} =
        [⟨5, .loadSourceValue, 1⟩, ⟨6, .storeRegister 3, 2⟩, ⟨8, .loadRegister 3, 2⟩, ⟨10, .changeState, 1⟩] ∧
      storing.NeverUndefined ⟨Sample.state, Sample.clock⟩ 32
        (storing.turns Sample.state (some seven) LoggingSink.mk Sample.clock {})
        (storing.writes Sample.state (some seven) LoggingSink.mk Sample.clock {})
        (storing.execute Sample.state (some seven) LoggingSink.mk Sample.clock {}).result := by
  have hexecuted : storing.executed Sample.state (some seven) LoggingSink.mk Sample.clock {} =
      [⟨5, .loadSourceValue, 1⟩, ⟨6, .storeRegister 3, 2⟩, ⟨8, .loadRegister 3, 2⟩, ⟨10, .changeState, 1⟩] := by
    rw [executed, turns_of_begun (entered_eq_ok_iff.2 ⟨5, by cbv, by decide, rfl⟩), Progress.turns_of_snd_eq_none,
      Progress.turns_of_snd_eq_none, Progress.turns_of_snd_eq_none,
      @Progress.turns_of_snd_eq_some _ _ _ _ _ (.ok (.change 7))] <;> decide +kernel
  have hloads : LoadsStored (storing.executed Sample.state (some seven) LoggingSink.mk Sample.clock {}) := by
    rw [hexecuted]
    intro before a after heq index ha _
    rcases before with _ | ⟨first, _ | ⟨second, rest⟩⟩
    · cases heq
      cases ha
    · cases heq
      cases ha
    · simp only [List.cons_append, List.cons.injEq] at heq
      obtain ⟨rfl, rfl, hrest⟩ := heq
      have hmem : a ∈ rest ++ a :: after := List.mem_append_right _ List.mem_cons_self
      rw [← hrest] at hmem
      rcases List.mem_pair.1 hmem with rfl | rfl
      · cases ha
        exact ⟨_, List.mem_cons_of_mem _ List.mem_cons_self, rfl⟩
      · cases ha
  exact ⟨hexecuted, (execute_never_undefined _ _ _ LoggingSink.mk _ _ (by simp [seven]) hloads).2⟩

end Program

end RuleMachine
