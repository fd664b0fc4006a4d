import Mathlib.Algebra.Group.Nat.Defs
import RuleMachine.Proofs.Operator.Kinds

/-!
# Operators in exact arithmetic

Each operator has an exact result on whole numbers, without a width. What it gives for integers is what the kind at which they meet keeps of that result: computing in 32 bits and cutting to the kind afterwards loses nothing that the kind can tell, and at truth the exact results are too small to wrap around. Operands that meet lack nothing that the operators need, so an operator refuses only the first operand of a kind that it does not take, and to divide an integer by zero.
-/

namespace RuleMachine

/-- The exact result of an operator: a whole number, or the answer to a comparison. -/
inductive Exact where
  | number (z : Int)
  | answer (holds : Bool)

/-- The value is what a kind keeps of the exact number; an answer is a truth whatever the kind. -/
def Exact.ShownBy (e : Exact) (kind : Kind) (v : Value) : Prop :=
  match e with
  | number z => v.Tells kind (kind.reduce z)
  | answer holds => v = .bool holds

/-- A number that the kind can tell is shown as it is. -/
theorem Exact.tells_of_shownBy {kind : Kind} {v : Value} {k : Nat} (h : (number k).ShownBy kind v)
    (hkind : kind.isInteger = true) (hk : k < kind.span) : v.Tells kind k :=
  ⟨h.kind_eq, h.payload_eq.trans (congrArg some (Kind.reduce_of_lt hkind hk))⟩

/-- What the operator makes of two whole numbers; there is no division by zero. -/
def ArithmeticOp.onNumbers? (op : ArithmeticOp) (m n : Nat) : Option Exact :=
  match op with
  | .mul => some (.number (m * n : Nat))
  | .div => if n = 0 then none else some (.number (m / n : Nat))
  | .mod => if n = 0 then none else some (.number (m % n : Nat))
  | .add => some (.number (m + n : Nat))
  | .sub => some (.number ((m : Int) - n))
  | .lt => some (.answer (m < n))
  | .le => some (.answer (m ≤ n))
  | .gt => some (.answer (n < m))
  | .ge => some (.answer (n ≤ m))
  | .eq => some (.answer (m = n))
  | .neq => some (.answer (m ≠ n))

def BitOp.onNumbers : BitOp → Nat → Nat → Nat
  | .and, m, n => m &&& n
  | .or, m, n => m ||| n
  | .xor, m, n => m ^^^ n
  | .shl, m, n => m * 2 ^ n
  | .shr, m, n => m / 2 ^ n

/-! ### Where operands meet -/

/-- Two operands are words, and the integer kind at which they meet can tell both. -/
structure Value.MeetAsWords (a b : Value) (kind : Kind) (m n : UInt32) : Prop where
  left : a.word? = some m
  right : b.word? = some n
  isInteger : kind.isInteger = true
  left_lt : m.toNat < kind.span
  right_lt : n.toNat < kind.span

/-- What there is where two operands meet: two single precision numbers, or two words. -/
inductive Value.Meet (a b : Value) : Kind → Prop where
  | singles (x y : Single) (ha : a.single? = some x) (hb : b.single? = some y) : Meet a b .float
  | words {kind : Kind} (m n : UInt32) (h : a.MeetAsWords b kind m n) : Meet a b kind

variable {a b : Value} {kind : Kind} {m n : UInt32}

theorem Value.meetAsWords_of_words (ha : a.word? = some m) (hb : b.word? = some n) :
    a.MeetAsWords b (a.kind.higher b.kind) m n := by
  have hm := payload?_eq_some_iff.2 ha
  have hn := payload?_eq_some_iff.2 hb
  obtain ⟨hkind, hleft, hright⟩ := Kind.higher_of_isInteger (isInteger_of_word ha) (isInteger_of_word hb)
  exact ⟨ha, hb, hkind, Nat.lt_of_lt_of_le (payload_lt hm) hleft, Nat.lt_of_lt_of_le (payload_lt hn) hright⟩

theorem Value.meetAsWords_of_promoteInteger (h : a.kind.promoteInteger? b.kind = some kind) :
    ∃ m n, a.MeetAsWords b kind m n := by
  obtain ⟨ha, hb, rfl⟩ := Kind.promoteInteger?_eq_some_iff.1 h
  obtain ⟨m, hm⟩ := Option.isSome_iff_exists.1 (a.isSome_word?.trans ha)
  obtain ⟨n, hn⟩ := Option.isSome_iff_exists.1 (b.isSome_word?.trans hb)
  exact ⟨m, n, meetAsWords_of_words hm hn⟩

theorem Value.meet_of_promoteArithmetic (h : a.kind.promoteArithmetic? b.kind = some kind) : a.Meet b kind := by
  obtain ⟨ha, hb, rfl⟩ := Kind.promoteArithmetic?_eq_some_iff.1 h
  by_cases hintegers : a.kind.isInteger = true ∧ b.kind.isInteger = true
  · obtain ⟨m, n, hwords⟩ :=
      meetAsWords_of_promoteInteger (Kind.promoteInteger?_eq_some_iff.2 ⟨hintegers.1, hintegers.2, rfl⟩)
    exact .words m n hwords
  · obtain ⟨x, hx⟩ := Option.isSome_iff_exists.1 (a.isSome_single?.trans ha)
    obtain ⟨y, hy⟩ := Option.isSome_iff_exists.1 (b.isSome_single?.trans hb)
    rw [Kind.higher_eq_float ha hb hintegers]
    exact .singles x y hx hy

/-! ### On integers -/

/-- A word that agrees with an exact number in 32 bits is the same to the kind. At truth the number must be too small to become zero in them. -/
theorem Kind.reduce_word (hkind : kind.isInteger = true) {z : Int} (hword : (m.toNat : Int) = z % 4294967296)
    (hsmall : kind = .bool → -4294967296 < z ∧ z < 4294967296) : kind.reduce m.toNat = kind.reduce z := by
  obtain rfl | rfl | rfl := isInteger_iff.1 hkind
  · have hbounds := hsmall rfl
    have hzero : (m.toNat : Int) = 0 ↔ z = 0 := by omega
    change (if (m.toNat : Int) = 0 then 0 else 1) = if z = 0 then 0 else 1
    simp only [hzero]
  · change ((m.toNat : Int) % 256).toNat = (z % 256).toNat
    omega
  · change ((m.toNat : Int) % 4294967296).toNat = (z % 4294967296).toNat
    omega

theorem Value.exists_ofResult (opcode : Opcode) (hkind : kind.isInteger = true) {z : Int}
    (hword : (m.toNat : Int) = z % 4294967296) (hsmall : kind = .bool → -4294967296 < z ∧ z < 4294967296) :
    ∃ v, ofResult opcode kind m = .ok v ∧ v.Tells kind (kind.reduce z) := by
  obtain ⟨v, hv, htells⟩ := exists_ofWord hkind m
  rw [Kind.reduce_word hkind hword hsmall] at htells
  exact ⟨v, by rw [ofResult, hv], htells⟩

namespace ArithmeticOp

variable {op : ArithmeticOp} {f : Fault}

theorem apply_of_words (ha : a.word? = some m) (hb : b.word? = some n) :
    op.apply a b = op.onIntegers (a.kind.higher b.kind) m n := by
  have hleft := Value.isInteger_of_word ha
  have hright := Value.isInteger_of_word hb
  have hmeet : a.kind.promoteArithmetic? b.kind = some (a.kind.higher b.kind) :=
    Kind.promoteArithmetic?_eq_some_iff.2
      ⟨Kind.isArithmetic_of_isInteger hleft, Kind.isArithmetic_of_isInteger hright, rfl⟩
  rw [apply, hmeet, Value.integer_eq_ok_iff.2 ha, Value.integer_eq_ok_iff.2 hb]
  obtain hkind | hkind | hkind := Kind.isInteger_iff.1 (Kind.higher_of_isInteger hleft hright).1 <;> rw [hkind] <;> rfl

theorem apply_of_singles {x y : Single} (hmeet : a.kind.promoteArithmetic? b.kind = some .float)
    (ha : a.single? = some x) (hb : b.single? = some y) : op.apply a b = .ok (op.onSingles x y) := by
  rw [apply, hmeet]
  dsimp only
  rw [ha, hb]

theorem onNumbers?_eq_none_iff {m n : Nat} : op.onNumbers? m n = none ↔ (op = .div ∨ op = .mod) ∧ n = 0 := by
  cases op <;> simp [onNumbers?]

/-- On truths every exact number is too small to be lost in 32 bits. -/
theorem number_of_truths {m n : Nat} {z : Int} (h : op.onNumbers? m n = some (.number z)) (hm : m < 2) (hn : n < 2) :
    -1 ≤ z ∧ z ≤ 2 := by
  obtain rfl | rfl : m = 0 ∨ m = 1 := Nat.le_one_iff_eq_zero_or_eq_one.1 (Nat.le_of_lt_succ hm) <;>
    obtain rfl | rfl : n = 0 ∨ n = 1 := Nat.le_one_iff_eq_zero_or_eq_one.1 (Nat.le_of_lt_succ hn) <;>
    cases op <;> cases h <;> decide

/-- In 32 bits the operators compute what they do exactly, cut to the kind. -/
theorem exists_onIntegers {e : Exact} (hkind : kind.isInteger = true) (hm : m.toNat < kind.span)
    (hn : n.toNat < kind.span) (h : op.onNumbers? m.toNat n.toNat = some e) :
    ∃ v, op.onIntegers kind m n = .ok v ∧ e.ShownBy kind v := by
  have hsmall : ∀ z, e = .number z → kind = .bool → -4294967296 < z ∧ z < 4294967296 := by
    rintro z rfl rfl
    have := number_of_truths h hm hn
    omega
  -- Quotients and remainders are words themselves.
  have hfits : ∀ (opcode : Opcode) (w : UInt32), e = .number w.toNat →
      ∃ v, Value.ofResult opcode kind w = .ok v ∧ e.ShownBy kind v := by
    rintro opcode w rfl
    have hlt : w.toNat < 4294967296 := w.toNat_lt
    exact Value.exists_ofResult opcode hkind (by omega) (hsmall _ rfl)
  have hdivisor : n.toNat ≠ 0 → n ≠ 0 := fun hzero hn => hzero (congrArg UInt32.toNat hn)
  cases op
  case mul =>
    cases h
    refine Value.exists_ofResult _ hkind ?_ (hsmall _ rfl)
    rw [UInt32.toNat_mul]
    omega
  case add =>
    cases h
    refine Value.exists_ofResult _ hkind ?_ (hsmall _ rfl)
    rw [UInt32.toNat_add]
    omega
  case sub =>
    cases h
    refine Value.exists_ofResult _ hkind ?_ (hsmall _ rfl)
    have := n.toNat_lt
    rw [UInt32.toNat_sub]
    omega
  case div =>
    obtain ⟨hzero, heq⟩ := Option.ite_none_left_eq_some.1 h
    rw [onIntegers, if_neg (hdivisor hzero)]
    refine hfits _ (m / n) ?_
    rw [UInt32.toNat_div]
    exact (Option.some.inj heq).symm
  case mod =>
    obtain ⟨hzero, heq⟩ := Option.ite_none_left_eq_some.1 h
    rw [onIntegers, if_neg (hdivisor hzero)]
    refine hfits _ (m % n) ?_
    rw [UInt32.toNat_mod]
    exact (Option.some.inj heq).symm
  case lt =>
    cases h
    exact ⟨_, rfl, congrArg Value.bool (decide_eq_decide.2 UInt32.lt_iff_toNat_lt)⟩
  case le =>
    cases h
    exact ⟨_, rfl, congrArg Value.bool (decide_eq_decide.2 UInt32.le_iff_toNat_le)⟩
  case gt =>
    cases h
    exact ⟨_, rfl, congrArg Value.bool (decide_eq_decide.2 UInt32.lt_iff_toNat_lt)⟩
  case ge =>
    cases h
    exact ⟨_, rfl, congrArg Value.bool (decide_eq_decide.2 UInt32.le_iff_toNat_le)⟩
  case eq =>
    cases h
    exact ⟨_, rfl, congrArg Value.bool (decide_eq_decide.2 UInt32.toNat_inj.symm)⟩
  case neq =>
    cases h
    exact ⟨_, rfl, congrArg Value.bool (decide_eq_decide.2 (not_congr UInt32.toNat_inj.symm))⟩

theorem onIntegers_eq_error_iff (hkind : kind.isInteger = true) (hm : m.toNat < kind.span) (hn : n.toNat < kind.span) :
    op.onIntegers kind m n = .error f ↔ (op = .div ∨ op = .mod) ∧ n.toNat = 0 ∧ f = .divisionByZero op.opcode := by
  cases hexact : op.onNumbers? m.toNat n.toNat with
  | none =>
    obtain ⟨hop, hzero⟩ := onNumbers?_eq_none_iff.1 hexact
    have hdivision : op.onIntegers kind m n = .error (.divisionByZero op.opcode) := by
      have hn : n = 0 := UInt32.toNat_inj.1 hzero
      rcases hop with rfl | rfl <;> exact if_pos hn
    rw [hdivision, Except.error.injEq, and_iff_right hop, and_iff_right hzero, eq_comm]
  | some e =>
    obtain ⟨v, hv, -⟩ := exists_onIntegers hkind hm hn hexact
    rw [hv]
    constructor
    · intro h
      cases h
    · rintro ⟨hop, hzero, -⟩
      cases (onNumbers?_eq_none_iff.2 ⟨hop, hzero⟩).symm.trans hexact

theorem apply_of_refused (h : ¬(a.kind.isArithmetic = true ∧ b.kind.isArithmetic = true)) :
    op.apply a b = .error (.typeMismatch op.opcode (culprit Kind.isArithmetic a b)) := by
  have hnone : a.kind.promoteArithmetic? b.kind = none := by
    rw [Kind.promoteArithmetic?, if_neg (by rwa [Bool.and_eq_true])]
  rw [apply, hnone]

/-- An operator refuses only an operand of a kind it does not take, and to divide an integer by zero. -/
theorem apply_eq_error_iff :
    op.apply a b = .error f ↔ f.BlamesFirst op.opcode Kind.isArithmetic [a, b] ∨
      (op = .div ∨ op = .mod) ∧ a.kind.isInteger = true ∧ b.payload? = some 0 ∧ f = .divisionByZero op.opcode := by
  by_cases hkinds : a.kind.isArithmetic = true ∧ b.kind.isArithmetic = true
  · rw [or_iff_right (Fault.not_blamesFirst hkinds)]
    have hmeet := Kind.promoteArithmetic?_eq_some_iff.2 ⟨hkinds.1, hkinds.2, rfl⟩
    generalize hkind : a.kind.higher b.kind = kind at hmeet
    cases Value.meet_of_promoteArithmetic hmeet with
    | singles x y hx hy =>
      rw [apply_of_singles hmeet hx hy]
      constructor
      · intro h
        cases h
      · rintro ⟨-, ha, hb, -⟩
        have hinteger := (Kind.higher_of_isInteger ha (Value.isInteger_of_payload hb)).1
        rw [hkind] at hinteger
        cases hinteger
    | words m n hwords =>
      have ha := Value.isInteger_of_word hwords.left
      rw [apply_of_words hwords.left hwords.right, hkind,
        onIntegers_eq_error_iff hwords.isInteger hwords.left_lt hwords.right_lt, and_iff_right ha,
        Value.payload?_eq_some_iff.2 hwords.right, Option.some.injEq]
  · rw [apply_of_refused hkinds, Fault.blamesFirst_iff_culprit hkinds, Except.error.injEq, eq_comm, or_iff_left]
    rintro ⟨-, ha, hb, -⟩
    exact hkinds ⟨Kind.isArithmetic_of_isInteger ha, Kind.isArithmetic_of_isInteger (Value.isInteger_of_payload hb)⟩

end ArithmeticOp

namespace BitOp

variable {op : BitOp} {f : Fault}

/-- The words are combined exactly, as far as 32 bits reach. -/
theorem toNat_onWords (op : BitOp) (m n : UInt32) :
    (op.onWords m n).toNat = op.onNumbers m.toNat n.toNat % 4294967296 := by
  have hfits : ∀ w : UInt32, w.toNat = w.toNat % 4294967296 := fun w => (Nat.mod_eq_of_lt w.toNat_lt).symm
  cases op
  case and => exact (hfits (m &&& n)).trans (by rw [UInt32.toNat_and]; rfl)
  case or => exact (hfits (m ||| n)).trans (by rw [UInt32.toNat_or]; rfl)
  case xor => exact (hfits (m ^^^ n)).trans (by rw [UInt32.toNat_xor]; rfl)
  case shl =>
    rw [onWords, onNumbers]
    split
    · next hlt =>
      have hcount : n.toNat % 32 = n.toNat := Nat.mod_eq_of_lt hlt
      rw [UInt32.toNat_shiftLeft, hcount, Nat.shiftLeft_eq]
    · next hge =>
      have hcount : 32 ≤ n.toNat := Nat.not_lt.1 hge
      exact (Nat.mod_eq_zero_of_dvd (Nat.dvd_mul_left_of_dvd (Nat.pow_dvd_pow 2 hcount) m.toNat)).symm
  case shr =>
    rw [onWords, onNumbers]
    split
    · next hlt =>
      have hcount : n.toNat % 32 = n.toNat := Nat.mod_eq_of_lt hlt
      rw [hfits, UInt32.toNat_shiftRight, hcount, Nat.shiftRight_eq_div_pow]
    · next hge =>
      have hcount : 32 ≤ n.toNat := Nat.not_lt.1 hge
      have hlt : m.toNat < 2 ^ n.toNat := Nat.lt_of_lt_of_le m.toNat_lt (Nat.pow_le_pow_right (by decide) hcount)
      rw [Nat.div_eq_of_lt hlt]
      rfl

theorem onNumbers_of_truths (op : BitOp) {m n : Nat} (hm : m < 2) (hn : n < 2) : op.onNumbers m n ≤ 2 := by
  obtain rfl | rfl : m = 0 ∨ m = 1 := Nat.le_one_iff_eq_zero_or_eq_one.1 (Nat.le_of_lt_succ hm) <;>
    obtain rfl | rfl : n = 0 ∨ n = 1 := Nat.le_one_iff_eq_zero_or_eq_one.1 (Nat.le_of_lt_succ hn) <;>
    cases op <;> decide

theorem apply_of_words (ha : a.word? = some m) (hb : b.word? = some n) :
    op.apply a b = Value.ofResult op.opcode (a.kind.higher b.kind) (op.onWords m n) := by
  have hmeet : a.kind.promoteInteger? b.kind = some (a.kind.higher b.kind) :=
    Kind.promoteInteger?_eq_some_iff.2 ⟨Value.isInteger_of_word ha, Value.isInteger_of_word hb, rfl⟩
  rw [apply, hmeet]
  dsimp only
  rw [Value.integer_eq_ok_iff.2 ha, Value.integer_eq_ok_iff.2 hb]
  rfl

theorem exists_apply (op : BitOp) (ha : a.word? = some m) (hb : b.word? = some n) :
    ∃ v, op.apply a b = .ok v ∧ (Exact.number (op.onNumbers m.toNat n.toNat)).ShownBy (a.kind.higher b.kind) v := by
  have hwords := Value.meetAsWords_of_words ha hb
  rw [apply_of_words ha hb]
  refine Value.exists_ofResult op.opcode hwords.isInteger ?_ ?_
  · rw [toNat_onWords]
    rfl
  · intro hbool
    rw [hbool] at hwords
    have := onNumbers_of_truths op hwords.left_lt hwords.right_lt
    omega

theorem apply_of_refused (h : ¬(a.kind.isInteger = true ∧ b.kind.isInteger = true)) :
    op.apply a b = .error (.typeMismatch op.opcode (culprit Kind.isInteger a b)) := by
  have hnone : a.kind.promoteInteger? b.kind = none := by
    rw [Kind.promoteInteger?, if_neg (by rwa [Bool.and_eq_true])]
  rw [apply, hnone]

/-- A bit operation refuses only an operand that is not an integer. -/
theorem apply_eq_error_iff : op.apply a b = .error f ↔ f.BlamesFirst op.opcode Kind.isInteger [a, b] := by
  by_cases hkinds : a.kind.isInteger = true ∧ b.kind.isInteger = true
  · obtain ⟨m, n, hwords⟩ :=
      Value.meetAsWords_of_promoteInteger (Kind.promoteInteger?_eq_some_iff.2 ⟨hkinds.1, hkinds.2, rfl⟩)
    obtain ⟨v, hv, -⟩ := exists_apply op hwords.left hwords.right
    rw [hv, iff_false_right (Fault.not_blamesFirst hkinds)]
    intro h
    cases h
  · rw [apply_of_refused hkinds, Fault.blamesFirst_iff_culprit hkinds, Except.error.injEq, eq_comm]

end BitOp

/-! ### Operators against exact arithmetic -/

namespace Value

/-- Just one of the strict comparisons holds, and the others say what follows from it. -/
def IsOrderedWith (a b : Value) : Prop :=
  ∃ lt eq gt : Bool, [lt, eq, gt].count true = 1 ∧
    ArithmeticOp.lt.apply a b = .ok (.bool lt) ∧ ArithmeticOp.eq.apply a b = .ok (.bool eq) ∧
    ArithmeticOp.gt.apply a b = .ok (.bool gt) ∧ ArithmeticOp.le.apply a b = .ok (.bool (lt || eq)) ∧
    ArithmeticOp.ge.apply a b = .ok (.bool (gt || eq)) ∧ ArithmeticOp.neq.apply a b = .ok (.bool !eq)

/-- What the operators give for two operands that stand for `m` and `n` and meet at a kind. -/
structure ComputesExactly (a b : Value) (kind : Kind) (m n : Nat) : Prop where
  arithmetic : ∀ (op : ArithmeticOp) e, op.onNumbers? m n = some e → ∃ v, op.apply a b = .ok v ∧ e.ShownBy kind v
  bits : ∀ op : BitOp, ∃ v, op.apply a b = .ok v ∧ (Exact.number (op.onNumbers m n)).ShownBy kind v
  ordered : a.IsOrderedWith b
  -- What is not greater than the left operand fits the kind.
  quotient : n ≠ 0 → ∃ v, ArithmeticOp.div.apply a b = .ok v ∧ v.Tells kind (m / n)
  remainder : n ≠ 0 → ∃ v, ArithmeticOp.mod.apply a b = .ok v ∧ v.Tells kind (m % n)
  shiftedDown : ∃ v, BitOp.shr.apply a b = .ok v ∧ v.Tells kind (m / 2 ^ n)

/-- Each step after the check of the kinds has what it needs. -/
structure Suffices (a b : Value) (kind : Kind) : Prop where
  singles : kind = .float → (∃ x, a.single? = some x) ∧ ∃ y, b.single? = some y
  words : kind ≠ .float → ∀ opcode, (∃ m, a.integer opcode = .ok m) ∧ (∃ n, b.integer opcode = .ok n) ∧
    ∀ word, ∃ v, ofResult opcode kind word = .ok v

theorem isOrderedWith_of_arithmetic {m n : Nat}
    (h : ∀ (op : ArithmeticOp) e, op.onNumbers? m n = some e → ∃ v, op.apply a b = .ok v ∧ e.ShownBy kind v) :
    a.IsOrderedWith b := by
  obtain ⟨_, hlt, rfl⟩ := h .lt _ rfl
  obtain ⟨_, heq, rfl⟩ := h .eq _ rfl
  obtain ⟨_, hgt, rfl⟩ := h .gt _ rfl
  obtain ⟨_, hle, rfl⟩ := h .le _ rfl
  obtain ⟨_, hge, rfl⟩ := h .ge _ rfl
  obtain ⟨_, hneq, rfl⟩ := h .neq _ rfl
  have hlower : decide (m ≤ n) = (decide (m < n) || decide (m = n)) := by
    rw [← Bool.decide_or, decide_eq_decide, Nat.le_iff_lt_or_eq]
  have hupper : decide (n ≤ m) = (decide (n < m) || decide (m = n)) := by
    rw [← Bool.decide_or, decide_eq_decide, Nat.le_iff_lt_or_eq, @eq_comm _ m n]
  rw [hlower] at hle
  rw [hupper] at hge
  rw [decide_not] at hneq
  refine ⟨_, _, _, ?_, hlt, heq, hgt, hle, hge, hneq⟩
  obtain hm | rfl | hm := Nat.lt_trichotomy m n
  · simp [hm, Nat.ne_of_lt hm, Nat.not_lt_of_lt hm]
  · simp
  · simp [hm, Nat.ne_of_gt hm, Nat.not_lt_of_lt hm]

theorem computesExactly_of_payload {m n : Nat} (ha : a.payload? = some m) (hb : b.payload? = some n) :
    a.ComputesExactly b (a.kind.higher b.kind) m n := by
  obtain ⟨m, hm, rfl⟩ := exists_word_of_payload ha
  obtain ⟨n, hn, rfl⟩ := exists_word_of_payload hb
  have hwords := meetAsWords_of_words hm hn
  -- A number that is not greater than the left operand is a number of the kind.
  have hfits : ∀ {k : Nat} {v : Value}, k ≤ m.toNat → (Exact.number k).ShownBy (a.kind.higher b.kind) v →
      v.Tells (a.kind.higher b.kind) k := fun hle hv =>
    Exact.tells_of_shownBy hv hwords.isInteger (Nat.lt_of_le_of_lt hle hwords.left_lt)
  have harithmetic : ∀ (op : ArithmeticOp) e, op.onNumbers? m.toNat n.toNat = some e →
      ∃ v, op.apply a b = .ok v ∧ e.ShownBy (a.kind.higher b.kind) v := by
    intro op e he
    rw [ArithmeticOp.apply_of_words hm hn]
    exact ArithmeticOp.exists_onIntegers hwords.isInteger hwords.left_lt hwords.right_lt he
  refine ⟨harithmetic, fun op => BitOp.exists_apply op hm hn, isOrderedWith_of_arithmetic harithmetic, ?_, ?_, ?_⟩
  · intro hzero
    obtain ⟨v, hv, hshown⟩ := harithmetic .div _ (if_neg hzero)
    exact ⟨v, hv, hfits (Nat.div_le_self _ _) hshown⟩
  · intro hzero
    obtain ⟨v, hv, hshown⟩ := harithmetic .mod _ (if_neg hzero)
    exact ⟨v, hv, hfits (Nat.mod_le _ _) hshown⟩
  · obtain ⟨v, hv, hshown⟩ := BitOp.exists_apply .shr hm hn
    exact ⟨v, hv, hfits (Nat.div_le_self _ _) hshown⟩

theorem suffices_of_promoteArithmetic (h : a.kind.promoteArithmetic? b.kind = some kind) : a.Suffices b kind := by
  cases meet_of_promoteArithmetic h with
  | singles x y ha hb => exact ⟨fun _ => ⟨⟨x, ha⟩, ⟨y, hb⟩⟩, fun hfloat => absurd rfl hfloat⟩
  | words m n hwords =>
    refine ⟨?_, ?_⟩
    · rintro rfl
      cases hwords.isInteger
    · intro _ opcode
      refine ⟨⟨m, integer_eq_ok_iff.2 hwords.left⟩, ⟨n, integer_eq_ok_iff.2 hwords.right⟩, fun word => ?_⟩
      obtain ⟨v, hv, -⟩ := exists_ofWord hwords.isInteger word
      exact ⟨v, by rw [ofResult, hv]⟩

/-- Integers meet at the wider of their kinds, and each operator gives what that kind keeps of its exact result; only a division by zero has none. An operator fails just when an operand is of a kind that it does not take, and then names the first such operand, or for a division of integers by zero: no other step can fail once the kinds are checked. -/
theorem operators_exact (a b : Value) :
    (∀ m n, a.payload? = some m → b.payload? = some n →
      ∃ kind, a.kind.promoteArithmetic? b.kind = some kind ∧ a.kind.promoteInteger? b.kind = some kind ∧
        (kind = a.kind ∨ kind = b.kind) ∧ a.kind.span ≤ kind.span ∧ b.kind.span ≤ kind.span ∧
        a.ComputesExactly b kind m n) ∧
      (∀ (op : ArithmeticOp) f, op.apply a b = .error f ↔ f.BlamesFirst op.opcode Kind.isArithmetic [a, b] ∨
        (op = .div ∨ op = .mod) ∧ a.kind.isInteger = true ∧ b.payload? = some 0 ∧ f = .divisionByZero op.opcode) ∧
      (∀ (op : BitOp) f, op.apply a b = .error f ↔ f.BlamesFirst op.opcode Kind.isInteger [a, b]) ∧
      (∀ kind, a.kind.promoteArithmetic? b.kind = some kind → a.Suffices b kind) ∧
      ∀ kind, a.kind.promoteInteger? b.kind = some kind →
        kind ≠ .float ∧ a.kind.promoteArithmetic? b.kind = some kind := by
  refine ⟨?_, fun op f => ArithmeticOp.apply_eq_error_iff, fun op f => BitOp.apply_eq_error_iff,
    fun kind => suffices_of_promoteArithmetic, ?_⟩
  · intro m n ha hb
    have hleft := isInteger_of_payload ha
    have hright := isInteger_of_payload hb
    have hmeet := Kind.promoteInteger?_eq_some_iff.2 ⟨hleft, hright, rfl⟩
    obtain ⟨-, hwider⟩ := Kind.higher_of_isInteger hleft hright
    exact ⟨_, Kind.promoteArithmetic?_of_promoteInteger hmeet, hmeet, Kind.eq_of_promoteInteger hmeet, hwider.1, hwider.2,
      computesExactly_of_payload ha hb⟩
  · intro kind hmeet
    refine ⟨?_, Kind.promoteArithmetic?_of_promoteInteger hmeet⟩
    rintro rfl
    obtain ⟨m, n, hwords⟩ := meetAsWords_of_promoteInteger hmeet
    cases hwords.isInteger

/-- A shift by more than the width leaves nothing, a negative difference of truths is true, and no integer is divided by zero. -/
theorem operators_exact_shift :
    (∃ v, BitOp.shl.apply (.u8 3) (.u32 33) = .ok v ∧ v.Tells .u32 0) ∧
      (∃ v, ArithmeticOp.sub.apply (.bool false) (.bool true) = .ok v ∧ v.Tells .bool 1) ∧
      ArithmeticOp.div.apply (.u32 1) (.bool false) = .error (.divisionByZero .div) := by
  refine ⟨?_, ?_, ?_⟩
  · obtain ⟨kind, hmeet, -, -, -, -, hexact⟩ := (operators_exact (.u8 3) (.u32 33)).1 3 33 rfl rfl
    obtain rfl : Kind.u32 = kind := Option.some.inj hmeet
    exact hexact.bits .shl
  · obtain ⟨kind, hmeet, -, -, -, -, hexact⟩ := (operators_exact (.bool false) (.bool true)).1 0 1 rfl rfl
    obtain rfl : Kind.bool = kind := Option.some.inj hmeet
    exact hexact.arithmetic .sub _ rfl
  · exact ((operators_exact (.u32 1) (.bool false)).2.1 .div _).2 (.inr ⟨.inl rfl, rfl, rfl, rfl⟩)

end Value

end RuleMachine
