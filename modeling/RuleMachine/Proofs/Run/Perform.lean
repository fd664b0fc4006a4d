import RuleMachine.Proofs.Operator.Kinds
import RuleMachine.Proofs.Value.Payload
import RuleMachine.Run.Perform

/-!
# What performing leads to

Where a run goes next is up to the instruction: a skip is one that stands in it, and only one instruction each writes, stays and changes the state. What these find on the stack decides what becomes of them.
-/

namespace RuleMachine

/-- The skips that the instruction can ask for. -/
def Instruction.skips : Instruction → List UInt16
  | jump _ skip _ => [skip]
  | switch table => table.cases.map (·.2)
  | _ => []

/-- The ways in which a run may go on after the instruction. -/
def Instruction.Allows (i : Instruction) : Next → Prop
  | .advance => True
  | .skip bytes => bytes ∈ i.skips
  | .write _ _ => i = .write
  | .stay => i = .stay
  | .change _ => i = .changeState

theorem SwitchTable.mem_skips_of_lookup {t : SwitchTable} {key : UInt32} {skip : UInt16}
    (h : t.lookup? key = some skip) : skip ∈ t.cases.map (·.2) := by
  obtain ⟨case, hfind, rfl⟩ := Option.map_eq_some_iff.1 h
  exact List.mem_map_of_mem (List.mem_of_find?_eq_some hfind)

namespace Context

/-! ### Where the run goes next -/

variable {c c' : Context} {next : Next}

theorem next_of_advanceWith {v : Value} (h : c.advanceWith v = .ok (c', next)) : next = .advance := by
  obtain ⟨c, -, heq⟩ := Except.bind_eq_ok_iff.1 h
  cases heq
  rfl

theorem next_of_mapTop {f : Value → Except Fault Value} (h : c.mapTop f = .ok (c', next)) : next = .advance := by
  obtain ⟨r, -, h⟩ := Except.bind_eq_ok_iff.1 h
  obtain ⟨v, -, h⟩ := Except.bind_eq_ok_iff.1 h
  exact next_of_advanceWith h

theorem next_of_mapPair {f : Value → Value → Except Fault Value} (h : c.mapPair f = .ok (c', next)) :
    next = .advance := by
  obtain ⟨r, -, h⟩ := Except.bind_eq_ok_iff.1 h
  obtain ⟨v, -, h⟩ := Except.bind_eq_ok_iff.1 h
  exact next_of_advanceWith h

theorem allows_of_switch {table : SwitchTable} (h : c.switch table = .ok (c', next)) :
    (Instruction.switch table).Allows next := by
  obtain ⟨r, -, h⟩ := Except.bind_eq_ok_iff.1 h
  obtain ⟨key, -, h⟩ := Except.bind_eq_ok_iff.1 h
  cases hlookup : table.lookup? key with
  | none =>
    simp only [hlookup] at h
    cases h
    trivial
  | some skip =>
    simp only [hlookup] at h
    cases h
    exact SwitchTable.mem_skips_of_lookup hlookup

theorem next_of_jumpIf {zero : Bool} {skip : UInt16} (h : c.jumpIf zero skip = .ok (c', next)) :
    next = .skip skip ∨ next = .advance := by
  obtain ⟨⟨v, c⟩, -, h⟩ := Except.bind_eq_ok_iff.1 h
  cases hzero : v.isZero? with
  | none => simp [hzero] at h
  | some isZero =>
    simp only [hzero] at h
    by_cases heq : isZero = zero
    · rw [if_pos heq] at h
      cases h
      exact .inl rfl
    · rw [if_neg heq] at h
      cases h
      exact .inr rfl

theorem allows_of_jumpIf {condition : JumpCondition} {zero short : Bool} {skip : UInt16}
    (h : c.jumpIf zero skip = .ok (c', next)) : (Instruction.jump condition skip short).Allows next := by
  rcases next_of_jumpIf h with rfl | rfl
  · exact List.mem_singleton_self _
  · trivial

/-- How the run goes on is up to the instruction: a skip stands in it, and only one instruction each writes, stays and changes the state. -/
theorem allows_of_perform {around : Surroundings} {i : Instruction} (h : c.perform around i = .ok (c', next)) :
    i.Allows next := by
  cases i
  case switch table => exact allows_of_switch h
  case jump condition skip short =>
    cases condition with
    | always =>
      cases h
      exact List.mem_singleton_self _
    | zero => exact allows_of_jumpIf h
    | nonZero => exact allows_of_jumpIf h
  case loadState | loadDwell | loadClock | loadFalse | loadTrue | loadU8 | loadU16 | loadU32 | loadFloat |
      loadDatetime =>
    cases next_of_advanceWith h
    trivial
  case not | typeTag | compareBlock | compareUnspecified | compareLoopback | convert =>
    simp only [perform] at h
    cases next_of_mapTop h
    trivial
  case arithmetic | bitwise | datetimeDiff | datetimeCompare =>
    simp only [perform] at h
    cases next_of_mapPair h
    trivial
  case loadSourceAddress | loadSourceEndpoint | loadSourceValue | loadRegister =>
    obtain ⟨_, -, h⟩ := Except.bind_eq_ok_iff.1 h
    cases next_of_advanceWith h
    trivial
  case dup | dupAt | rot | rotAt | pop =>
    obtain ⟨_, -, h⟩ := Except.bind_eq_ok_iff.1 h
    cases h
    trivial
  case storeRegister =>
    obtain ⟨_, -, h⟩ := Except.bind_eq_ok_iff.1 h
    obtain ⟨_, -, h⟩ := Except.bind_eq_ok_iff.1 h
    cases h
    trivial
  case write | changeState =>
    obtain ⟨_, -, h⟩ := Except.bind_eq_ok_iff.1 h
    obtain ⟨_, -, h⟩ := Except.bind_eq_ok_iff.1 h
    cases h
    rfl
  case decompose =>
    obtain ⟨⟨v, c⟩, -, h⟩ := Except.bind_eq_ok_iff.1 h
    cases v
    case datetime d =>
      obtain ⟨_, -, h⟩ := Except.bind_eq_ok_iff.1 h
      cases h
      trivial
    all_goals cases h
  case stay =>
    cases h
    rfl

/-! ### The instructions with an effect -/

theorem pop_eq_ok_iff {v : Value} :
    c.pop = .ok (v, c') ↔ ∃ rest, c.stack.values = v :: rest ∧ c' = { c with stack := { c.stack with values := rest } } := by
  unfold pop Stack.pop
  cases c.stack.values with
  | nil => simp
  | cons top rest =>
    constructor
    · intro h
      cases h
      exact ⟨rest, rfl, rfl⟩
    · rintro ⟨_, hvalues, rfl⟩
      cases hvalues
      rfl

theorem popPair_eq_ok_iff {v w : Value} :
    c.popPair = .ok (w, v, c') ↔
      ∃ rest, c.stack.values = v :: w :: rest ∧ c' = { c with stack := { c.stack with values := rest } } := by
  unfold popPair Stack.popPair
  rcases c.stack.values with _ | ⟨top, _ | ⟨below, rest⟩⟩
  · simp
  · simp
  · constructor
    · intro h
      cases h
      exact ⟨rest, rfl, rfl⟩
    · rintro ⟨_, hvalues, rfl⟩
      cases hvalues
      rfl

theorem popPair_of_shallow (hdepth : c.stack.depth < 2) :
    c.popPair = .error (.stackUnderflow c.opcode 2 c.stack.depth) := by
  cases hpop : c.popPair with
  | ok popped =>
    obtain ⟨rest, hvalues, -⟩ := popPair_eq_ok_iff.1 hpop
    rw [Stack.depth, hvalues, List.length_cons, List.length_cons] at hdepth
    omega
  | error f =>
    unfold popPair Stack.popPair at hpop
    split at hpop
    · cases hpop
    · next hfault =>
      split at hfault
      · cases hfault
      · cases hfault
        cases hpop
        rfl

variable {around : Surroundings} {v w : Value} {rest : List Value}

/-- A write takes the value on top and the endpoint below it, which has to be an integer. -/
theorem perform_write_eq_ok_iff {endpoint : UInt32} :
    c.perform around .write = .ok (c', .write endpoint v) ↔
      ∃ w rest, c.stack.values = v :: w :: rest ∧ w.word? = some endpoint ∧
        c' = { c with stack := { c.stack with values := rest } } := by
  constructor
  · intro h
    obtain ⟨⟨w, v', c₁⟩, hpop, h⟩ := Except.bind_eq_ok_iff.1 h
    obtain ⟨n, hinteger, h⟩ := Except.bind_eq_ok_iff.1 h
    obtain ⟨rest, hvalues, rfl⟩ := popPair_eq_ok_iff.1 hpop
    cases h
    exact ⟨w, rest, hvalues, Value.integer_eq_ok_iff.1 hinteger, rfl⟩
  · intro h
    obtain ⟨w, rest, hvalues, hw, rfl⟩ := h
    exact Except.bind_eq_ok_iff.2 ⟨_, popPair_eq_ok_iff.2 ⟨rest, hvalues, rfl⟩,
      Except.bind_eq_ok_iff.2 ⟨_, Value.integer_eq_ok_iff.2 hw, rfl⟩⟩

theorem perform_write_of_kind (hvalues : c.stack.values = v :: w :: rest) (hw : w.word? = none) :
    c.perform around .write = .error (.typeMismatch c.opcode w.kind) := by
  rw [perform, popPair_eq_ok_iff.2 ⟨rest, hvalues, rfl⟩, Except.ok_bind]
  dsimp only
  rw [Value.integer, hw]
  rfl

theorem perform_write_of_shallow (hdepth : c.stack.depth < 2) :
    c.perform around .write = .error (.stackUnderflow c.opcode 2 c.stack.depth) := by
  rw [perform, popPair_of_shallow hdepth]
  rfl

/-- A branch takes the word on top of the stack and looks it up. -/
theorem perform_switch_of_word {table : SwitchTable} {key : UInt32} (hvalues : c.stack.values = v :: rest)
    (hv : v.word? = some key) :
    c.perform around (.switch table) =
      .ok ({ c with stack := { c.stack with values := rest } }, (table.lookup? key).elim .advance .skip) := by
  rw [perform, switch, pop_eq_ok_iff.2 ⟨rest, hvalues, rfl⟩, Except.ok_bind]
  dsimp only
  rw [Value.integer_eq_ok_iff.2 hv, Except.ok_bind]
  cases table.lookup? key <;> rfl

theorem perform_switch_of_kind {table : SwitchTable} (hvalues : c.stack.values = v :: rest) (hv : v.word? = none) :
    c.perform around (.switch table) = .error (.typeMismatch c.opcode v.kind) := by
  rw [perform, switch, pop_eq_ok_iff.2 ⟨rest, hvalues, rfl⟩, Except.ok_bind]
  dsimp only
  rw [Value.integer, hv]
  rfl

/-- The new state is the word on top of the stack. -/
theorem perform_changeState_eq_ok_iff {next : Next} :
    c.perform around .changeState = .ok (c', next) ↔
      ∃ v rest state, c.stack.values = v :: rest ∧ v.word? = some state ∧
        c' = { c with stack := { c.stack with values := rest } } ∧ next = .change state := by
  constructor
  · intro h
    obtain ⟨⟨v, c₁⟩, hpop, h⟩ := Except.bind_eq_ok_iff.1 h
    obtain ⟨n, hinteger, h⟩ := Except.bind_eq_ok_iff.1 h
    obtain ⟨rest, hvalues, rfl⟩ := pop_eq_ok_iff.1 hpop
    cases h
    exact ⟨v, rest, n, hvalues, Value.integer_eq_ok_iff.1 hinteger, rfl, rfl⟩
  · intro h
    obtain ⟨v, rest, n, hvalues, hword, rfl, rfl⟩ := h
    exact Except.bind_eq_ok_iff.2 ⟨_, pop_eq_ok_iff.2 ⟨rest, hvalues, rfl⟩,
      Except.bind_eq_ok_iff.2 ⟨_, Value.integer_eq_ok_iff.2 hword, rfl⟩⟩

end Context

end RuleMachine
