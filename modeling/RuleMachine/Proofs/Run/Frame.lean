import RuleMachine.Proofs.Run.Effect
import RuleMachine.Proofs.Run.Ending
import RuleMachine.Proofs.Run.OnePass
import RuleMachine.Proofs.Run.Writes

/-!
# Values beneath the stack

An instruction looks at its operands and not below them, and asks for room only as far as its results need more of it than the operands had. With other values beneath the stack, and a limit that is higher by as many, an instruction that was executed is therefore executed in the same way, and the values beneath are still there afterwards. Whole runs follow turn by turn. A failure is another matter: what was missing on the stack may be found beneath it.
-/

namespace RuleMachine

namespace Stack

/-- The stack on top of these values, the deepest first, with room for them. -/
def onTopOf (below : List Value) (s : Stack) : Stack := ⟨s.values ++ below.reverse, s.limit + below.length⟩

theorem toList_onTopOf (below : List Value) (s : Stack) : (s.onTopOf below).toList = below ++ s.toList := by
  rw [toList, onTopOf, List.reverse_append, List.reverse_reverse, toList]

theorem depth_onTopOf (below : List Value) (s : Stack) : (s.onTopOf below).depth = s.depth + below.length := by
  rw [depth, onTopOf, List.length_append, List.length_reverse, depth]

end Stack

/-! ### One instruction -/

/-- How much deeper the instruction leaves the stack. -/
def Instruction.depthChange : Instruction → Int
  | loadSourceAddress | loadSourceEndpoint | loadSourceValue | loadState | loadDwell | loadClock | loadFalse | loadTrue
  | loadU8 _ | loadU16 _ | loadU32 _ | loadFloat _ | loadDatetime _ _ | loadRegister _ | dup | dupAt _ => 1
  | not | rot | rotAt _ | typeTag | compareBlock _ _ _ | compareUnspecified | compareLoopback | convert _ | stay => 0
  | storeRegister _ | arithmetic _ | bitwise _ | datetimeDiff | datetimeCompare _ _ | pop | switch _ | write
  | changeState => -1
  | jump condition _ _ => if condition = .always then 0 else -1
  | decompose mask => mask.fields.length - 1

/-- The answer to a write is the only value that an instruction does not leave there itself. -/
theorem Instruction.depthChange_eq {i : Instruction} (h : i ≠ .write) : i.depthChange = (i.leaves : Int) - i.takes := by
  cases i
  case write => exact absurd rfl h
  case dupAt offset =>
    change (1 : Int) = ((offset.toNat + 2 : Nat) : Int) - ((offset.toNat + 1 : Nat) : Int)
    omega
  case rotAt offset =>
    change (0 : Int) = ((offset.toNat + 1 : Nat) : Int) - ((offset.toNat + 1 : Nat) : Int)
    omega
  case jump condition skip short => cases condition <;> rfl
  all_goals rfl

namespace Context

variable {c c' : Context} {i : Instruction} {around : Surroundings} {next : Next}

/-- The context with its stack on top of these values. -/
def onTopOf (below : List Value) (c : Context) : Context := { c with stack := c.stack.onTopOf below }

theorem perform_onTopOf (below : List Value) (hopcode : c.opcode = i.opcode)
    (hdepth : c.stack.depth ≤ c.stack.limit) (h : c.perform around i = .ok (c', next)) :
    (c.onTopOf below).perform around i = .ok (c'.onTopOf below, next) := by
  obtain ⟨e, heffect, hnext, hroom, rfl⟩ := (perform_eq_ok_iff hopcode hdepth).1 h
  have htakes : i.takes ≤ c.stack.depth := takes_le_of_effect heffect
  -- Where there are enough values, none of the operands comes from beneath.
  have hoperands : (c.onTopOf below).stack.values.take i.takes = c.stack.values.take i.takes :=
    List.take_append_of_le_length htakes
  have hrest : (c.onTopOf below).stack.values.drop i.takes = c.stack.values.drop i.takes ++ below.reverse :=
    List.drop_append_of_le_length htakes
  have hdeeper : (c.onTopOf below).stack.depth = c.stack.depth + below.length := c.stack.depth_onTopOf below
  have hraised : (c.onTopOf below).stack.limit = c.stack.limit + below.length := rfl
  refine (@perform_eq_ok_iff (c.onTopOf below) _ i around next hopcode (by omega)).2 ⟨e, ?_, hnext, by omega, ?_⟩
  · rw [hoperands]
    exact heffect
  · rw [hrest, ← List.append_assoc]
    rfl

theorem push_onTopOf (below : List Value) {v : Value} (h : c.push v = .ok c') :
    (c.onTopOf below).push v = .ok (c'.onTopOf below) := by
  obtain ⟨hroom, rfl⟩ := push_eq_ok_iff.1 h
  have hdeeper : (c.onTopOf below).stack.depth = c.stack.depth + below.length := c.stack.depth_onTopOf below
  have hraised : (c.onTopOf below).stack.limit = c.stack.limit + below.length := rfl
  exact push_of_room (by omega)

/-- A write that is performed asks for its value to be written. -/
theorem exists_request_of_write (h : c.perform around .write = .ok (c', next)) :
    ∃ endpoint v, next = .write endpoint v := by
  obtain ⟨⟨w, v, c₁⟩, -, h⟩ := Except.bind_eq_ok_iff.1 h
  obtain ⟨endpoint, -, h⟩ := Except.bind_eq_ok_iff.1 h
  cases h
  exact ⟨endpoint, v, rfl⟩

/-- An instruction that is performed changes the depth by as much as the instruction alone says. -/
theorem depth_of_perform (hopcode : c.opcode = i.opcode) (hdepth : c.stack.depth ≤ c.stack.limit)
    (h : c.perform around i = .ok (c', next)) :
    (c'.stack.depth : Int) = c.stack.depth + ((i.leaves : Int) - i.takes) := by
  obtain ⟨e, heffect, -, -, rfl⟩ := (perform_eq_ok_iff hopcode hdepth).1 h
  have htakes : i.takes ≤ c.stack.depth := takes_le_of_effect heffect
  have hleaves := Instruction.length_results_of_effect (c.length_operands i) heffect
  have hafter : (e.results ++ c.stack.values.drop i.takes).length = i.leaves + (c.stack.depth - i.takes) := by
    rw [List.length_append, hleaves, List.length_drop]
    rfl
  rw [Stack.depth, hafter]
  omega

end Context

variable {σ : Type} [Sink σ] {p : Program} {around : Surroundings}

namespace Progress

/-- To execute the instruction from `s` leads to this, with this call of the sink if there is one, and the run goes on or ends so. -/
inductive Executes (around : Surroundings) (s : Progress σ) (i : Instruction) :
    Progress σ → Option (UInt32 × Value) → Next → Prop
  | performed {c : Context} {next : Next} (hperform : (s.begin i).context.perform around i = .ok (c, next))
      (hnext : next.request? = none) :
    Executes around s i { s.begin i with context := c } none next
  | answered {c c' : Context} {endpoint : UInt32} {v : Value}
      (hperform : (s.begin i).context.perform around i = .ok (c, .write endpoint v))
      (hpush : ({ s.begin i with context := c }.write endpoint v).2 = .ok c') :
    Executes around s i { ({ s.begin i with context := c }.write endpoint v).1 with context := c' }
      (some (endpoint, v)) .advance

variable {s s' t : Progress σ} {i : Instruction} {call : Option (UInt32 × Value)} {next : Next}

omit [Sink σ] in
/-- The run with its stack on top of these values, and with this log. -/
def onTopOf (below : List Value) (log : Array Event) (s : Progress σ) : Progress σ :=
  ⟨s.context.onTopOf below, s.sink, log⟩

/-- With other values beneath the stack the instruction is executed in the same way, and they stay where they are. -/
theorem Executes.onTopOf (h : s.Executes around i t call next) (hdepth : s.context.stack.depth ≤ s.context.stack.limit)
    (below : List Value) (log : Array Event) :
    ∃ log', (s.onTopOf below log).Executes around i (t.onTopOf below log') call next := by
  cases h with
  | performed hperform hnext =>
    have hbelow := @Context.perform_onTopOf (s.begin i).context _ i around _ below rfl hdepth hperform
    exact ⟨_, Executes.performed (s := s.onTopOf below log) hbelow hnext⟩
  | answered hperform hpush =>
    have hbelow := @Context.perform_onTopOf (s.begin i).context _ i around _ below rfl hdepth hperform
    exact ⟨_, Executes.answered (s := s.onTopOf below log) hbelow (Context.push_onTopOf below hpush)⟩

theorem Executes.depth_eq (h : s.Executes around i t call next)
    (hdepth : s.context.stack.depth ≤ s.context.stack.limit) :
    (t.context.stack.depth : Int) = s.context.stack.depth + i.depthChange := by
  cases h with
  | performed hperform hnext =>
    have hwrite : i ≠ .write := by
      rintro rfl
      obtain ⟨endpoint, v, rfl⟩ := Context.exists_request_of_write hperform
      cases hnext
    rw [Instruction.depthChange_eq hwrite]
    exact @Context.depth_of_perform (s.begin i).context _ i around _ rfl hdepth hperform
  | @answered c c' endpoint v hperform hpush =>
    obtain rfl : i = .write := Context.allows_of_perform hperform
    -- A write takes two values, and its answer is pushed afterwards.
    have hperformed : (c.stack.depth : Int) = s.context.stack.depth + -2 :=
      @Context.depth_of_perform (s.begin .write).context _ .write around _ rfl hdepth hperform
    obtain ⟨-, rfl⟩ := Context.push_eq_ok_iff.1 hpush
    change ((c.stack.depth + 1 : Nat) : Int) = s.context.stack.depth + -1
    omega

/-! ### One turn -/

variable {length : Nat}

theorem Executes.request?_eq (h : s.Executes around i t call next)
    (hdecode : Instruction.decode p.bytes s.context.pc = .ok (i, length)) : s.request? p = call := by
  cases h with
  | performed hperform hnext => rw [request?_of_performed hdecode hperform, hnext]
  | answered hperform hpush => exact request?_of_performed hdecode hperform

/-- A turn leaves the run going on where its instruction is executed and does not end it. -/
theorem turn_eq_none_iff :
    s.turn p around = (s', none) ↔
      ∃ i length t call next bytes, Instruction.decode p.bytes s.context.pc = .ok (i, length) ∧
        s.Executes around i t call next ∧ next.passed? = some bytes ∧ s.context.pc + length + bytes ≤ p.size ∧
        s' = { t with context := { t.context with pc := s.context.pc + length + bytes } } := by
  rw [turn_eq_iff]
  constructor
  · intro h
    cases h with
    | moved hdecode hperform hnext hle =>
      exact ⟨_, _, _, _, _, _, hdecode, .performed hperform (Next.request?_of_passed hnext), hnext, hle, rfl⟩
    | wrote hdecode hperform hpush =>
      exact ⟨_, _, _, _, _, 0, hdecode, .answered hperform hpush, rfl, (Instruction.decode_bounds hdecode).2, rfl⟩
  · rintro ⟨i, length, t, call, next, bytes, hdecode, hexecutes, hnext, hle, rfl⟩
    cases hexecutes with
    | performed hperform hrequest => exact .moved hdecode hperform hnext hle
    | @answered c c' endpoint v hperform hpush =>
      cases hnext
      exact @Turn.wrote σ _ p around s i length c c' endpoint v hdecode hperform hpush

/-- A turn brings the run to an ending where its instruction is executed and ends it. -/
theorem turn_eq_ended_iff {ending : Ending} :
    s.turn p around = (s', some (.ok ending)) ↔
      ∃ i length t next, Instruction.decode p.bytes s.context.pc = .ok (i, length) ∧
        s.Executes around i t none next ∧ next.ending? = some ending ∧ s' = s.begin i := by
  rw [turn_eq_iff]
  constructor
  · intro h
    cases h with
    | stayed hdecode hperform => exact ⟨_, _, _, _, hdecode, .performed hperform rfl, rfl, rfl⟩
    | changed hdecode hperform => exact ⟨_, _, _, _, hdecode, .performed hperform rfl, rfl, rfl⟩
  · rintro ⟨i, length, t, next, hdecode, hexecutes, hending, rfl⟩
    cases hexecutes with
    | performed hperform hrequest =>
      cases next <;> cases hending
      · exact .stayed hdecode hperform
      · exact .changed hdecode hperform

theorem turn_onTopOf (below : List Value) (log : Array Event) (hdepth : s.context.stack.depth ≤ s.context.stack.limit)
    (h : s.turn p around = (s', none)) :
    (∃ log', (s.onTopOf below log).turn p around = (s'.onTopOf below log', none)) ∧
      (s.onTopOf below log).answered? p = s.answered? p := by
  obtain ⟨i, length, t, call, next, bytes, hdecode, hexecutes, hnext, hle, rfl⟩ := turn_eq_none_iff.1 h
  obtain ⟨log', hbelow⟩ := hexecutes.onTopOf hdepth below log
  refine ⟨⟨log', turn_eq_none_iff.2 ⟨i, length, _, call, next, bytes, hdecode, hbelow, hnext, hle, rfl⟩⟩, ?_⟩
  rw [answered?, answered?, hexecutes.request?_eq hdecode, hbelow.request?_eq hdecode]
  rfl

theorem turn_ended_onTopOf (below : List Value) (log : Array Event)
    (hdepth : s.context.stack.depth ≤ s.context.stack.limit) {ending : Ending}
    (h : s.turn p around = (s', some (.ok ending))) :
    (∃ log', (s.onTopOf below log).turn p around = (s'.onTopOf below log', some (.ok ending))) ∧
      (s.onTopOf below log).answered? p = s.answered? p := by
  obtain ⟨i, length, t, next, hdecode, hexecutes, hending, rfl⟩ := turn_eq_ended_iff.1 h
  obtain ⟨log', hbelow⟩ := hexecutes.onTopOf hdepth below log
  refine ⟨⟨_, turn_eq_ended_iff.2 ⟨i, length, _, next, hdecode, hbelow, hending, rfl⟩⟩, ?_⟩
  rw [answered?, answered?, hexecutes.request?_eq hdecode, hbelow.request?_eq hdecode]
  rfl

/-! ### Whole runs -/

/-- The one turn is the other with its stack on top of these values, and makes the same write if it makes one. -/
structure TurnsOnTopOf (p : Program) (below : List Value) (t t' : Progress σ) : Prop where
  eq : ∃ log, t' = t.onTopOf below log
  answered?_eq : t'.answered? p = t.answered? p

theorem Runs.onTopOf {taken : List (Progress σ)} {outcome : Progress σ × Except Fault Ending}
    (h : s.Runs p around taken outcome) (hdepth : s.context.stack.depth ≤ s.context.stack.limit) {ending : Ending}
    (hending : outcome.2 = .ok ending) (below : List Value) (log : Array Event) :
    ∃ taken' log', (s.onTopOf below log).Runs p around taken' (outcome.1.onTopOf below log', outcome.2) ∧
      List.Forall₂ (TurnsOnTopOf p below) taken taken' := by
  induction h generalizing log with
  | @last s s' r hturn =>
    cases hending
    obtain ⟨⟨log', hbelow⟩, hanswered⟩ := turn_ended_onTopOf below log hdepth hturn
    exact ⟨_, log', .last hbelow, .cons ⟨⟨log, rfl⟩, hanswered⟩ .nil⟩
  | @next s s' rest outcome hturn hrest ih =>
    obtain ⟨⟨log₁, hbelow⟩, hanswered⟩ := turn_onTopOf below log hdepth hturn
    obtain ⟨taken', log', hruns, halike⟩ := ih ((stack_of_turn hturn).depth_le hdepth) hending log₁
    exact ⟨_, log', .next hbelow hruns, .cons ⟨⟨log, rfl⟩, hanswered⟩ halike⟩

/-- On top of other values, under a limit that is higher by as many, an instruction that is executed is executed in the same way, it changes the depth as the instruction alone says, and a run that comes to an ending from here goes through the same turns and comes to the same ending. -/
theorem frame_rule (p : Program) (around : Surroundings) (s : Progress σ)
    (hdepth : s.context.stack.depth ≤ s.context.stack.limit) (below : List Value) (log : Array Event) :
    (s.onTopOf below log).context.stack.toList = below ++ s.context.stack.toList ∧
      (∀ i t call next, s.Executes around i t call next →
          (t.context.stack.depth : Int) = s.context.stack.depth + i.depthChange ∧
            ∃ log', (s.onTopOf below log).Executes around i (t.onTopOf below log') call next) ∧
        ∀ s' ending, s.finish p around = (s', .ok ending) →
          ∃ log', (s.onTopOf below log).finish p around = (s'.onTopOf below log', .ok ending) ∧
            List.Forall₂ (TurnsOnTopOf p below) (s.turns p around) ((s.onTopOf below log).turns p around) := by
  refine ⟨s.context.stack.toList_onTopOf below, ?_, ?_⟩
  · intro i t call next h
    exact ⟨h.depth_eq hdepth, h.onTopOf hdepth below log⟩
  · intro s' ending hfinish
    have hruns : s.Runs p around _ _ := runs_finish s
    rw [hfinish] at hruns
    obtain ⟨taken', log', hbelow, halike⟩ := hruns.onTopOf hdepth rfl below log
    obtain ⟨rfl, hfinish'⟩ := runs_iff.1 hbelow
    exact ⟨log', hfinish'.symm, halike⟩

/-- Bytes that turn two values around and back and change to the state that is their difference. -/
def difference : Program := ⟨#[29, 29, 19, 59], by decide⟩

/-- A run that stands so, with nothing stored and no packet. -/
def standing (values : List Value) (limit pc : Nat) (opcode : Opcode) (log : Array Event) : Progress LoggingSink :=
  ⟨⟨⟨values, limit⟩, Vector.replicate 16 .undefined, none, pc, opcode⟩, LoggingSink.mk, log⟩

/-- The difference of two values becomes the new state, also where two others are beneath them. -/
theorem frame_rule_difference :
    (standing [.u8 2, .u8 9] 2 0 .retStay #[]).finish difference ⟨Sample.state, Sample.clock⟩ =
        (standing [.u8 7] 2 3 .retChange
          #[.step 0 .rot 2, .step 1 .rot 2, .step 2 (.arithmetic .sub) 2, .step 3 .changeState 1], .ok (.change 7)) ∧
      ∃ log, (standing [.u8 2, .u8 9, .undefined, .bool true] 4 0 .retStay #[]).finish difference
          ⟨Sample.state, Sample.clock⟩ =
        (standing [.u8 7, .undefined, .bool true] 4 3 .retChange log, .ok (.change 7)) := by
  have hfinish : (standing [.u8 2, .u8 9] 2 0 .retStay #[]).finish difference ⟨Sample.state, Sample.clock⟩ =
      (standing [.u8 7] 2 3 .retChange
        #[.step 0 .rot 2, .step 1 .rot 2, .step 2 (.arithmetic .sub) 2, .step 3 .changeState 1], .ok (.change 7)) := by
    cbv
  obtain ⟨log, hbelow, -⟩ :=
    (frame_rule _ _ _ (by exact Nat.le_refl 2) [.bool true, .undefined] #[]).2.2 _ _ hfinish
  exact ⟨hfinish, log, hbelow⟩

end Progress

end RuleMachine
