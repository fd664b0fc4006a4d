import RuleMachine.Proofs.Except
import RuleMachine.Run.Perform

/-!
# What an instruction comes to

Performing is said once more, without a stack: an instruction takes a fixed number of operands, makes an effect of them or refuses them, and leaves a fixed number of results in their place. `perform_eq` says that this is all there is to it. What lies below the operands is not looked at, and the limit of the stack only decides whether the results find room, so whatever depends on the limit, on the values below or on what an instruction may look at is read off the effect.
-/

namespace RuleMachine

/-- What an instruction can see of a run besides its operands. -/
structure Sight where
  state : RuleState
  /-- What the clock shows where the instruction stands. -/
  now : Moment
  trigger : Option Trigger
  registers : Vector Value 16

/-- What an instruction makes of its operands. -/
structure Instruction.Effect where
  /-- The values in place of the operands, the top first. -/
  results : List Value
  registers : Vector Value 16
  next : Next

namespace Sight

variable (seen : Sight)

/-- One result, and nothing else. -/
def value (v : Value) : Instruction.Effect := ⟨[v], seen.registers, .advance⟩

/-- No result. -/
def goOn (next : Next) : Instruction.Effect := ⟨[], seen.registers, next⟩

/-- A result that is made from the trigger. -/
def fromTrigger (opcode : Opcode) (make : Trigger → Value) : Except Fault Instruction.Effect :=
  match seen.trigger with
  | some trigger => .ok (seen.value (make trigger))
  | none => .error (.missingTrigger opcode)

def fromRegister (index : UInt8) : Except Fault Instruction.Effect :=
  match seen.registers[index.toNat]? with
  | some v => .ok (seen.value v)
  | none => .error (.invalidRegister index)

def intoRegister (index : UInt8) (v : Value) : Except Fault Instruction.Effect :=
  if h : index.toNat < 16 then .ok ⟨[], seen.registers.set index.toNat v h, .advance⟩
  else .error (.invalidRegister index)

def decomposed (opcode : Opcode) (mask : Datetime.Mask) (v : Value) : Except Fault Instruction.Effect :=
  match v with
  | .datetime d => .ok ⟨((d.decompose mask).map .u32).reverse, seen.registers, .advance⟩
  | v => .error (.typeMismatch opcode v.kind)

def switched (opcode : Opcode) (table : SwitchTable) (v : Value) : Except Fault Instruction.Effect :=
  (v.integer opcode).map fun key => seen.goOn ((table.lookup? key).elim .advance .skip)

def jumped (opcode : Opcode) (zero : Bool) (skip : UInt16) (v : Value) : Except Fault Instruction.Effect :=
  match v.isZero? with
  | some isZero => .ok (seen.goOn (if isZero = zero then .skip skip else .advance))
  | none => .error (.typeMismatch opcode v.kind)

end Sight

namespace Instruction

/-- How many values the instruction takes from the stack. -/
def takes : Instruction → Nat
  | storeRegister _ | not | dup | decompose _ | typeTag | pop | switch _ | compareBlock _ _ _ | compareUnspecified
  | compareLoopback | convert _ | changeState => 1
  | jump condition _ _ => if condition = .always then 0 else 1
  | arithmetic _ | bitwise _ | datetimeDiff | datetimeCompare _ _ | rot | write => 2
  | dupAt offset | rotAt offset => offset.toNat + 1
  | _ => 0

/-- How many values the instruction leaves in their place. -/
def leaves : Instruction → Nat
  | storeRegister _ | pop | switch _ | jump _ _ _ | write | changeState | stay => 0
  | dup | rot => 2
  | dupAt offset => offset.toNat + 2
  | rotAt offset => offset.toNat + 1
  | decompose mask => mask.fields.length
  | _ => 1

/-- Too few operands. -/
def underflow (i : Instruction) (operands : List Value) : Fault := .stackUnderflow i.opcode i.takes operands.length

def one (i : Instruction) (operands : List Value) (use : Value → Except Fault Instruction.Effect) :
    Except Fault Instruction.Effect :=
  match operands with
  | [v] => use v
  | _ => .error (i.underflow operands)

/-- The operands in the order in which they were pushed. -/
def two (i : Instruction) (operands : List Value) (use : Value → Value → Except Fault Instruction.Effect) :
    Except Fault Instruction.Effect :=
  match operands with
  | [b, a] => use a b
  | _ => .error (i.underflow operands)

/-- The deepest operand, where all are there. -/
def deepest (i : Instruction) (operands : List Value) (use : Value → Instruction.Effect) :
    Except Fault Instruction.Effect :=
  match operands[i.takes - 1]? with
  | some v => .ok (use v)
  | none => .error (i.underflow operands)

/-- What the instruction makes of its operands, the top first. -/
def effect (seen : Sight) (i : Instruction) (operands : List Value) : Except Fault Instruction.Effect :=
  match i with
  | .loadSourceAddress => seen.fromTrigger i.opcode fun trigger => .block trigger.source
  | .loadSourceEndpoint => seen.fromTrigger i.opcode fun trigger => .u32 trigger.endpoint
  | .loadSourceValue => seen.fromTrigger i.opcode Trigger.value
  | .loadState => .ok (seen.value (.u32 seen.state.current))
  | .loadDwell => .ok (seen.value (.u32 (seen.state.dwell seen.now)))
  | .loadClock => .ok (seen.value (.datetime (.ofMoment seen.now)))
  | .loadFalse => .ok (seen.value (.bool false))
  | .loadTrue => .ok (seen.value (.bool true))
  | .loadU8 n => .ok (seen.value (.u8 n))
  | .loadU16 n => .ok (seen.value (.u32 n.toUInt32))
  | .loadU32 n => .ok (seen.value (.u32 n))
  | .loadFloat x => .ok (seen.value (.float x))
  | .loadDatetime _ value => .ok (seen.value (.datetime value))
  | .loadRegister index => seen.fromRegister index
  | .storeRegister index => i.one operands (seen.intoRegister index)
  | .arithmetic op => i.two operands fun a b => (op.apply a b).map seen.value
  | .bitwise op => i.two operands fun a b => (op.apply a b).map seen.value
  | .not => i.one operands fun v => v.complement.map seen.value
  | .datetimeDiff => i.two operands fun a b => (a.datetimeDiff b).map seen.value
  | .datetimeCompare order mask => i.two operands fun a b => (a.datetimeCompare order mask b).map seen.value
  | .dup | .dupAt _ => i.deepest operands fun v => ⟨v :: operands, seen.registers, .advance⟩
  | .rot | .rotAt _ => i.deepest operands fun v => ⟨v :: operands.dropLast, seen.registers, .advance⟩
  | .decompose mask => i.one operands (seen.decomposed i.opcode mask)
  | .typeTag => i.one operands fun v => .ok (seen.value (.u8 v.kind.tag))
  | .pop => i.one operands fun _ => .ok (seen.goOn .advance)
  | .switch table => i.one operands (seen.switched i.opcode table)
  | .jump .always skip _ => .ok (seen.goOn (.skip skip))
  | .jump .zero skip _ => i.one operands (seen.jumped i.opcode true skip)
  | .jump .nonZero skip _ => i.one operands (seen.jumped i.opcode false skip)
  | .compareBlock first last literal => i.one operands fun v => (v.compareBlock first last literal).map seen.value
  | .compareUnspecified => i.one operands fun v => (v.compareAddress i.opcode 0).map seen.value
  | .compareLoopback => i.one operands fun v => (v.compareAddress i.opcode 1).map seen.value
  | .convert target => i.one operands fun v => (v.convert target).map seen.value
  | .write => i.two operands fun a b => (a.integer i.opcode).map fun endpoint => seen.goOn (.write endpoint b)
  | .changeState => i.one operands fun v => (v.integer i.opcode).map fun state => seen.goOn (.change state)
  | .stay => .ok (seen.goOn .stay)

end Instruction

namespace Context

variable {c : Context} {i : Instruction} {around : Surroundings}

def sight (c : Context) (around : Surroundings) : Sight :=
  ⟨around.state, around.clock.reading c.pc, c.trigger, c.registers⟩

/-- The context without its top `n` values. -/
def without (c : Context) (n : Nat) : Context :=
  { c with stack := { c.stack with values := c.stack.values.drop n } }

/-- The context once the results stand in place of the top `n` values, if they find room. -/
def settle (c : Context) (n : Nat) (e : Instruction.Effect) : Except Fault (Context × Next) :=
  if c.stack.depth - n + e.results.length ≤ c.stack.limit then
    .ok ({ c with
      stack := { c.stack with values := e.results ++ c.stack.values.drop n }
      registers := e.registers }, e.next)
  else .error (.stackOverflow c.stack.limit)

/-! ### Pushing -/

theorem advanceWith_without (n : Nat) (v : Value) :
    (c.without n).advanceWith v = c.settle n ((c.sight around).value v) := by
  unfold advanceWith push Stack.push settle
  simp only [Sight.value, without, Stack.depth, List.length_drop, List.length_singleton, Nat.add_one_le_iff]
  split <;> rfl

theorem advanceWith_eq (v : Value) : c.advanceWith v = c.settle 0 ((c.sight around).value v) :=
  c.advanceWith_without 0 v

/-- Without results there is always room. -/
theorem settle_goOn (hdepth : c.stack.depth ≤ c.stack.limit) (n : Nat) (next : Next) :
    c.settle n ((c.sight around).goOn next) = .ok (c.without n, next) := by
  have hroom : c.stack.depth - n + ([] : List Value).length ≤ c.stack.limit := by
    rw [List.length_nil]
    omega
  exact if_pos hroom

theorem pushAll_eq (hdepth : c.stack.depth ≤ c.stack.limit) (values : List Value) :
    c.pushAll values =
      if c.stack.depth + values.length ≤ c.stack.limit then
        .ok { c with stack := { c.stack with values := values.reverse ++ c.stack.values } }
      else .error (.stackOverflow c.stack.limit) := by
  induction values generalizing c with
  | nil => exact (if_pos hdepth).symm
  | cons v values ih =>
    unfold pushAll push Stack.push
    by_cases hroom : c.stack.depth < c.stack.limit
    · rw [if_pos hroom]
      refine (ih (c := { c with stack := { c.stack with values := v :: c.stack.values } }) hroom).trans ?_
      simp only [Stack.depth, List.length_cons, List.reverse_cons, List.append_assoc, List.singleton_append,
        Nat.add_assoc, Nat.add_comm 1]
    · rw [if_neg hroom, if_neg (by rw [List.length_cons]; omega)]
      rfl

/-! ### Taking operands -/

theorem pop_bind {k : Value × Context → Except Fault (Context × Next)}
    {use : Value → Except Fault Instruction.Effect}
    (hopcode : c.opcode = i.opcode) (htakes : i.takes = 1)
    (h : ∀ v, k (v, c.without 1) = (use v).bind (c.settle 1)) :
    (c.pop >>= k) = (i.one (c.stack.values.take i.takes) use).bind (c.settle i.takes) := by
  rw [htakes]
  unfold pop Stack.pop
  cases hvalues : c.stack.values with
  | nil =>
    simp only [List.take_nil, Instruction.one, Instruction.underflow, htakes, fault, hopcode, Stack.depth, hvalues]
    rfl
  | cons v rest =>
    refine Eq.trans ?_ (h v)
    simp only [without, hvalues]
    rfl

theorem popPair_bind {k : Value × Value × Context → Except Fault (Context × Next)}
    {use : Value → Value → Except Fault Instruction.Effect} (hopcode : c.opcode = i.opcode) (htakes : i.takes = 2)
    (h : ∀ a b, k (a, b, c.without 2) = (use a b).bind (c.settle 2)) :
    (c.popPair >>= k) = (i.two (c.stack.values.take i.takes) use).bind (c.settle i.takes) := by
  rw [htakes]
  unfold popPair Stack.popPair
  rcases hvalues : c.stack.values with _ | ⟨b, _ | ⟨a, rest⟩⟩
  case cons.cons =>
    refine Eq.trans ?_ (h a b)
    simp only [without, hvalues]
    rfl
  all_goals
    simp only [List.take_nil, List.take_succ_cons, Instruction.two, Instruction.underflow, htakes, fault, hopcode,
      Stack.depth, hvalues]
    rfl

theorem underflow_of_getElem? {n : Nat} (hopcode : c.opcode = i.opcode) (htakes : i.takes = n + 1)
    (hvalues : c.stack.values[n]? = none) :
    c.fault (.underflow (n + 1)) = i.underflow (c.stack.values.take i.takes) := by
  have hlength : c.stack.values.length ≤ n + 1 := Nat.le_succ_of_le (List.getElem?_eq_none_iff.1 hvalues)
  rw [htakes, List.take_of_length_le hlength, Instruction.underflow, htakes, ← hopcode]
  rfl

/-- The deepest operand is where the instruction looks for it on the stack. -/
theorem deepest_eq {n : Nat} {use : Value → Instruction.Effect} (hopcode : c.opcode = i.opcode)
    (htakes : i.takes = n + 1) :
    i.deepest (c.stack.values.take i.takes) use =
      match c.stack.values[n]? with
      | some v => .ok (use v)
      | none => .error (c.fault (.underflow (n + 1))) := by
  have hdeepest : (c.stack.values.take i.takes)[i.takes - 1]? = c.stack.values[n]? := by
    rw [htakes, Nat.add_sub_cancel, List.getElem?_take_of_lt (Nat.lt_succ_self n)]
  rw [Instruction.deepest, hdeepest]
  cases hvalue : c.stack.values[n]? with
  | none => rw [underflow_of_getElem? hopcode htakes hvalue]
  | some v => rfl

theorem dup_bind {n : Nat} (hopcode : c.opcode = i.opcode) (htakes : i.takes = n + 1) :
    (do let c ← c.dup n; return (c, .advance) : Except Fault (Context × Next)) =
      (i.deepest (c.stack.values.take i.takes)
        fun v => ⟨v :: c.stack.values.take i.takes, c.registers, .advance⟩).bind (c.settle i.takes) := by
  rw [deepest_eq hopcode htakes, htakes]
  unfold dup Stack.dup
  cases hvalue : c.stack.values[n]? with
  | none => rfl
  | some v =>
    obtain ⟨hlt, -⟩ := List.getElem?_eq_some_iff.1 hvalue
    have hroom : c.stack.depth - (n + 1) + (v :: c.stack.values.take (n + 1)).length ≤ c.stack.limit ↔
        c.stack.depth < c.stack.limit := by
      rw [List.length_cons, List.length_take, Stack.depth]
      omega
    simp only [Stack.push, Except.bind, settle, hroom, List.cons_append, List.take_append_drop]
    split <;> rfl

theorem rot_bind {n : Nat} (hopcode : c.opcode = i.opcode) (htakes : i.takes = n + 1)
    (hdepth : c.stack.depth ≤ c.stack.limit) :
    (do let c ← c.rot n; return (c, .advance) : Except Fault (Context × Next)) =
      (i.deepest (c.stack.values.take i.takes)
        fun v => ⟨v :: (c.stack.values.take i.takes).dropLast, c.registers, .advance⟩).bind (c.settle i.takes) := by
  rw [deepest_eq hopcode htakes, htakes]
  unfold rot Stack.rot
  cases hvalue : c.stack.values[n]? with
  | none => rfl
  | some v =>
    obtain ⟨hlt, -⟩ := List.getElem?_eq_some_iff.1 hvalue
    have hkept : (c.stack.values.take (n + 1)).dropLast = c.stack.values.take n := by
      rw [List.dropLast_eq_take, List.length_take, List.take_take]
      congr 1
      omega
    have hroom : c.stack.depth - (n + 1) + (v :: c.stack.values.take n).length ≤ c.stack.limit := by
      rw [List.length_cons, List.length_take]
      rw [Stack.depth] at hdepth ⊢
      omega
    simp only [Except.bind, settle, hkept, if_pos hroom, List.cons_append, List.eraseIdx_eq_take_drop_succ]
    rfl

/-! ### The instructions -/

theorem mapTop_eq {f : Value → Except Fault Value} (hopcode : c.opcode = i.opcode) (htakes : i.takes = 1) :
    c.mapTop f =
      (i.one (c.stack.values.take i.takes) fun v => (f v).map (c.sight around).value).bind (c.settle i.takes) := by
  refine pop_bind hopcode htakes ?_
  intro v
  dsimp only
  cases f v with
  | error e => rfl
  | ok w => exact c.advanceWith_without 1 w

theorem mapPair_eq {f : Value → Value → Except Fault Value} (hopcode : c.opcode = i.opcode) (htakes : i.takes = 2) :
    c.mapPair f =
      (i.two (c.stack.values.take i.takes) fun a b => (f a b).map (c.sight around).value).bind (c.settle i.takes) := by
  refine popPair_bind hopcode htakes ?_
  intro a b
  dsimp only
  cases f a b with
  | error e => rfl
  | ok w => exact c.advanceWith_without 2 w

theorem requireTrigger_bind (make : Trigger → Value) (hopcode : c.opcode = i.opcode) :
    (do let trigger ← c.requireTrigger; c.advanceWith (make trigger) : Except Fault (Context × Next)) =
      ((c.sight around).fromTrigger i.opcode make).bind (c.settle 0) := by
  unfold requireTrigger Sight.fromTrigger sight
  cases c.trigger with
  | none =>
    rw [hopcode]
    rfl
  | some trigger => exact @advanceWith_eq c around (make trigger)

theorem decompose_eq (mask : Datetime.Mask) (hopcode : c.opcode = i.opcode) (htakes : i.takes = 1)
    (hdepth : c.stack.depth ≤ c.stack.limit) :
    c.decompose mask =
      (i.one (c.stack.values.take i.takes) ((c.sight around).decomposed i.opcode mask)).bind (c.settle i.takes) := by
  refine pop_bind hopcode htakes ?_
  intro v
  cases v
  case datetime d =>
    have hrest : (c.without 1).stack.depth ≤ (c.without 1).stack.limit := by
      simp only [without, Stack.depth, List.length_drop] at *
      omega
    dsimp only
    rw [pushAll_eq hrest]
    simp only [without, Stack.depth, List.length_drop, Sight.decomposed, Except.bind, settle, List.length_reverse]
    split <;> rfl
  all_goals
    dsimp only [without]
    rw [hopcode]
    rfl

theorem switch_eq (table : SwitchTable) (hopcode : c.opcode = i.opcode) (htakes : i.takes = 1)
    (hdepth : c.stack.depth ≤ c.stack.limit) :
    c.switch table =
      (i.one (c.stack.values.take i.takes) ((c.sight around).switched i.opcode table)).bind (c.settle i.takes) := by
  refine pop_bind hopcode htakes ?_
  intro v
  rw [← hopcode]
  unfold Sight.switched
  change (v.integer c.opcode >>= _) = _
  cases v.integer c.opcode with
  | error f => rfl
  | ok key =>
    dsimp only [Except.map, Except.bind]
    rw [settle_goOn hdepth]
    cases hlookup : table.lookup? key <;> simp only [Except.ok_bind, hlookup, Option.elim] <;> rfl

theorem jumpIf_eq (zero : Bool) (skip : UInt16) (hopcode : c.opcode = i.opcode) (htakes : i.takes = 1)
    (hdepth : c.stack.depth ≤ c.stack.limit) :
    c.jumpIf zero skip =
      (i.one (c.stack.values.take i.takes) ((c.sight around).jumped i.opcode zero skip)).bind (c.settle i.takes) := by
  refine pop_bind hopcode htakes ?_
  intro v
  rw [← hopcode]
  unfold Sight.jumped
  dsimp only
  cases v.isZero? with
  | none => rfl
  | some isZero =>
    dsimp only [Except.bind]
    rw [settle_goOn hdepth]
    rfl

theorem storeRegister_eq (index : UInt8) (hopcode : c.opcode = i.opcode) (htakes : i.takes = 1)
    (hdepth : c.stack.depth ≤ c.stack.limit) :
    (do let (v, c) ← c.pop; let c ← c.setRegister index v; return (c, .advance) : Except Fault (Context × Next)) =
      (i.one (c.stack.values.take i.takes) ((c.sight around).intoRegister index)).bind (c.settle i.takes) := by
  refine pop_bind hopcode htakes ?_
  intro v
  dsimp only
  unfold setRegister Sight.intoRegister
  by_cases hindex : index.toNat < 16
  · have hroom : c.stack.depth - 1 + ([] : List Value).length ≤ c.stack.limit := by
      rw [List.length_nil]
      omega
    rw [dif_pos hindex, dif_pos hindex]
    simp only [Except.bind, settle, if_pos hroom]
    rfl
  · rw [dif_neg hindex, dif_neg hindex]
    rfl

/-- An instruction that takes its operands and then goes on as a word among them says. -/
theorem integer_bind {n : Nat} (v : Value) (go : UInt32 → Next) (hopcode : c.opcode = i.opcode)
    (hdepth : c.stack.depth ≤ c.stack.limit) :
    (do let word ← v.integer c.opcode; return (c.without n, go word) : Except Fault (Context × Next)) =
      ((v.integer i.opcode).map fun word => (c.sight around).goOn (go word)).bind (c.settle n) := by
  rw [hopcode]
  cases v.integer i.opcode with
  | error f => rfl
  | ok word => exact (settle_goOn hdepth n (go word)).symm

/-- Performing is to take the operands, to make the effect of them and to put its results in their place. -/
theorem perform_eq (hopcode : c.opcode = i.opcode) (hdepth : c.stack.depth ≤ c.stack.limit) :
    c.perform around i =
      (i.effect (c.sight around) (c.stack.values.take i.takes)).bind (c.settle i.takes) := by
  cases i
  case loadSourceAddress => exact requireTrigger_bind (fun trigger => .block trigger.source) hopcode
  case loadSourceEndpoint => exact requireTrigger_bind (fun trigger => .u32 trigger.endpoint) hopcode
  case loadSourceValue => exact requireTrigger_bind Trigger.value hopcode
  case loadRegister index =>
    unfold perform register Instruction.effect Sight.fromRegister sight
    dsimp only
    cases c.registers[index.toNat]? with
    | none => rfl
    | some v => exact @advanceWith_eq c around v
  case storeRegister index => exact storeRegister_eq index hopcode rfl hdepth
  case arithmetic | bitwise | datetimeDiff | datetimeCompare => exact mapPair_eq hopcode rfl
  case not => exact mapTop_eq hopcode rfl
  case typeTag => exact mapTop_eq (f := fun v => .ok (.u8 v.kind.tag)) hopcode rfl
  case compareBlock first last literal => exact mapTop_eq (f := (·.compareBlock first last literal)) hopcode rfl
  case convert target => exact mapTop_eq (f := (·.convert target)) hopcode rfl
  case compareUnspecified =>
    rw [perform, hopcode]
    exact mapTop_eq (f := (·.compareAddress .cmpIpUndef 0)) hopcode rfl
  case compareLoopback =>
    rw [perform, hopcode]
    exact mapTop_eq (f := (·.compareAddress .cmpIpLo 1)) hopcode rfl
  case dup | dupAt => exact dup_bind hopcode rfl
  case rot | rotAt => exact rot_bind hopcode rfl hdepth
  case decompose mask => exact decompose_eq mask hopcode rfl hdepth
  case pop => exact pop_bind hopcode rfl fun v => (settle_goOn hdepth 1 .advance).symm
  case switch table => exact switch_eq table hopcode rfl hdepth
  case jump condition skip short =>
    cases condition with
    | always => exact (settle_goOn hdepth 0 (.skip skip)).symm
    | zero => exact jumpIf_eq true skip hopcode rfl hdepth
    | nonZero => exact jumpIf_eq false skip hopcode rfl hdepth
  case write => exact popPair_bind hopcode rfl fun a b => integer_bind a (.write · b) hopcode hdepth
  case changeState => exact pop_bind hopcode rfl fun v => integer_bind v .change hopcode hdepth
  case stay => exact (settle_goOn hdepth 0 .stay).symm
  all_goals exact @advanceWith_eq c around _

end Context

/-! ### How many operands and results there are -/

theorem Datetime.length_decompose (d : Datetime) (mask : Mask) : (d.decompose mask).length = mask.fields.length := by
  have horder : Field.pushOrder = Field.all.reverse := rfl
  rw [decompose, Mask.fields, List.length_map, horder, List.filter_reverse, List.length_reverse]

namespace Instruction

variable {seen : Sight} {i : Instruction} {operands : List Value} {e : Instruction.Effect}

theorem one_of_short {use : Value → Except Fault Instruction.Effect} (htakes : i.takes = 1)
    (h : operands.length < i.takes) : i.one operands use = .error (i.underflow operands) := by
  unfold one
  split
  · rw [htakes, List.length_singleton] at h
    omega
  · rfl

theorem two_of_short {use : Value → Value → Except Fault Instruction.Effect} (htakes : i.takes = 2)
    (h : operands.length < i.takes) : i.two operands use = .error (i.underflow operands) := by
  unfold two
  split
  · rw [htakes, List.length_cons, List.length_singleton] at h
    omega
  · rfl

theorem deepest_of_short {use : Value → Instruction.Effect} (h : operands.length < i.takes) :
    i.deepest operands use = .error (i.underflow operands) := by
  rw [deepest, List.getElem?_eq_none_iff.2 (by omega)]

/-- Without all of its operands an instruction comes to nothing. -/
theorem effect_of_short (h : operands.length < i.takes) : i.effect seen operands = .error (i.underflow operands) := by
  cases i
  case storeRegister | not | decompose | typeTag | pop | switch | compareBlock | compareUnspecified | compareLoopback |
      convert | changeState => exact one_of_short rfl h
  case arithmetic | bitwise | datetimeDiff | datetimeCompare | write => exact two_of_short rfl h
  case dup | dupAt | rot | rotAt => exact deepest_of_short h
  case jump condition skip short =>
    cases condition with
    | always => cases h
    | zero | nonZero => exact one_of_short rfl h
  all_goals cases h

theorem one_eq_ok_iff {use : Value → Except Fault Instruction.Effect} :
    i.one operands use = .ok e ↔ ∃ v, operands = [v] ∧ use v = .ok e := by
  unfold one
  split
  · simp
  · next hother =>
    constructor
    · intro h
      cases h
    · intro h
      obtain ⟨v, hoperands, -⟩ := h
      exact absurd hoperands (hother v)

theorem two_eq_ok_iff {use : Value → Value → Except Fault Instruction.Effect} :
    i.two operands use = .ok e ↔ ∃ a b, operands = [b, a] ∧ use a b = .ok e := by
  unfold two
  split
  · simp [and_assoc]
  · next hother =>
    constructor
    · intro h
      cases h
    · intro h
      obtain ⟨a, b, hoperands, -⟩ := h
      exact absurd hoperands (hother b a)

theorem deepest_eq_ok_iff {use : Value → Instruction.Effect} :
    i.deepest operands use = .ok e ↔ ∃ v, operands[i.takes - 1]? = some v ∧ use v = e := by
  unfold deepest
  cases operands[i.takes - 1]? <;> simp

theorem exists_of_fromTrigger {opcode : Opcode} {make : Trigger → Value} (h : seen.fromTrigger opcode make = .ok e) :
    ∃ v, e = seen.value v := by
  unfold Sight.fromTrigger at h
  split at h <;> cases h
  exact ⟨_, rfl⟩

theorem exists_of_fromRegister {index : UInt8} (h : seen.fromRegister index = .ok e) : ∃ v, e = seen.value v := by
  unfold Sight.fromRegister at h
  split at h <;> cases h
  exact ⟨_, rfl⟩

/-- An effect needs all operands. -/
theorem length_operands_of_effect (hlength : operands.length ≤ i.takes) (h : i.effect seen operands = .ok e) :
    operands.length = i.takes := by
  rcases Nat.lt_or_ge operands.length i.takes with hshort | hge
  · cases (effect_of_short hshort).symm.trans h
  · exact Nat.le_antisymm hlength hge

/-- How many results there are is up to the instruction alone. -/
theorem length_results_of_effect (hlength : operands.length ≤ i.takes) (h : i.effect seen operands = .ok e) :
    e.results.length = i.leaves := by
  have hall := length_operands_of_effect hlength h
  cases i
  case loadSourceAddress | loadSourceEndpoint | loadSourceValue =>
    obtain ⟨v, rfl⟩ := exists_of_fromTrigger h
    rfl
  case loadRegister =>
    obtain ⟨v, rfl⟩ := exists_of_fromRegister h
    rfl
  case storeRegister =>
    obtain ⟨v, -, hv⟩ := one_eq_ok_iff.1 h
    unfold Sight.intoRegister at hv
    split at hv <;> cases hv
    rfl
  case arithmetic | bitwise | datetimeDiff | datetimeCompare | write =>
    obtain ⟨a, b, -, hab⟩ := two_eq_ok_iff.1 h
    obtain ⟨_, -, rfl⟩ := Except.map_eq_ok_iff.1 hab
    rfl
  case not | compareBlock | compareUnspecified | compareLoopback | convert | switch | changeState =>
    obtain ⟨v, -, hv⟩ := one_eq_ok_iff.1 h
    obtain ⟨_, -, rfl⟩ := Except.map_eq_ok_iff.1 hv
    rfl
  case dup | dupAt =>
    obtain ⟨v, -, rfl⟩ := deepest_eq_ok_iff.1 h
    exact congrArg (· + 1) hall
  case rot | rotAt =>
    obtain ⟨v, -, rfl⟩ := deepest_eq_ok_iff.1 h
    rw [List.length_cons, List.length_dropLast, hall]
    rfl
  case decompose mask =>
    obtain ⟨v, -, hv⟩ := one_eq_ok_iff.1 h
    cases v
    case datetime d =>
      cases hv
      rw [List.length_reverse, List.length_map, d.length_decompose mask]
      rfl
    all_goals cases hv
  case typeTag | pop =>
    obtain ⟨v, -, hv⟩ := one_eq_ok_iff.1 h
    cases hv
    rfl
  case jump condition skip short =>
    cases condition with
    | always =>
      cases h
      rfl
    | zero | nonZero =>
      obtain ⟨v, -, hv⟩ := one_eq_ok_iff.1 h
      unfold Sight.jumped at hv
      split at hv <;> cases hv
      rfl
  all_goals
    cases h
    rfl

end Instruction

namespace Context

variable {c c' : Context} {i : Instruction} {around : Surroundings} {next : Next}

theorem length_operands (c : Context) (i : Instruction) : (c.stack.values.take i.takes).length ≤ i.takes :=
  List.length_take_le i.takes c.stack.values

theorem takes_le_of_effect {e : Instruction.Effect}
    (h : i.effect (c.sight around) (c.stack.values.take i.takes) = .ok e) : i.takes ≤ c.stack.depth := by
  have hall := Instruction.length_operands_of_effect (c.length_operands i) h
  rw [List.length_take] at hall
  rw [Stack.depth]
  omega

/-- An instruction that is performed replaces its operands by its results, for which there is room. -/
theorem perform_eq_ok_iff (hopcode : c.opcode = i.opcode) (hdepth : c.stack.depth ≤ c.stack.limit) :
    c.perform around i = .ok (c', next) ↔
      ∃ e, i.effect (c.sight around) (c.stack.values.take i.takes) = .ok e ∧ next = e.next ∧
        c.stack.depth - i.takes + i.leaves ≤ c.stack.limit ∧
        c' = { c with
          stack := { c.stack with values := e.results ++ c.stack.values.drop i.takes }
          registers := e.registers } := by
  rw [perform_eq hopcode hdepth]
  cases heffect : i.effect (c.sight around) (c.stack.values.take i.takes) with
  | error f => simp [Except.bind]
  | ok e =>
    have hlength := Instruction.length_results_of_effect (c.length_operands i) heffect
    simp only [Except.bind, settle, hlength]
    by_cases hroom : c.stack.depth - i.takes + i.leaves ≤ c.stack.limit
    · simp [hroom, eq_comm, and_comm]
    · simp [hroom]

/-- An instruction fails because it refuses its operands, or because its results do not find room. -/
theorem perform_eq_error_iff (hopcode : c.opcode = i.opcode) (hdepth : c.stack.depth ≤ c.stack.limit) {f : Fault} :
    c.perform around i = .error f ↔
      i.effect (c.sight around) (c.stack.values.take i.takes) = .error f ∨
        (∃ e, i.effect (c.sight around) (c.stack.values.take i.takes) = .ok e) ∧
          c.stack.limit < c.stack.depth - i.takes + i.leaves ∧ f = .stackOverflow c.stack.limit := by
  rw [perform_eq hopcode hdepth]
  cases heffect : i.effect (c.sight around) (c.stack.values.take i.takes) with
  | error g => simp [Except.bind]
  | ok e =>
    have hlength := Instruction.length_results_of_effect (c.length_operands i) heffect
    simp only [Except.bind, settle, hlength]
    by_cases hroom : c.stack.depth - i.takes + i.leaves ≤ c.stack.limit
    · simp [hroom, Nat.not_lt.2 hroom]
    · simp [hroom, Nat.not_le.1 hroom, eq_comm]

end Context

end RuleMachine
