import RuleMachine.Proofs.Operator.Exact

/-!
# Widening first

Operands of different kinds are as good as operands converted beforehand to the kind at which they meet. Both ways of widening give the operator the same numbers, so it makes the same value of them or the same fault.
-/

namespace RuleMachine

namespace Value

variable {a b : Value} {kind : Kind} {m n : UInt32}

/-- The two values are the operands as they are at the kind at which they meet. -/
structure WidenTo (a b : Value) (kind : Kind) (a' b' : Value) : Prop where
  left : a.convert? kind = some a'
  right : b.convert? kind = some b'

theorem WidenTo.kinds {a' b' : Value} (h : a.WidenTo b kind a' b') : a'.kind = kind ∧ b'.kind = kind :=
  ⟨kind_of_convert? h.left, kind_of_convert? h.right⟩

theorem exists_widenTo_of_words (h : a.MeetAsWords b kind m n) :
    ∃ a' b', a.WidenTo b kind a' b' ∧ a'.word? = some m ∧ b'.word? = some n := by
  obtain ⟨a', ha, -, hm⟩ := exists_convert?_of_word h.left h.isInteger h.left_lt
  obtain ⟨b', hb, -, hn⟩ := exists_convert?_of_word h.right h.isInteger h.right_lt
  exact ⟨a', b', ⟨ha, hb⟩, hm, hn⟩

theorem widenTo_of_singles {x y : Single} (ha : a.single? = some x) (hb : b.single? = some y) :
    a.WidenTo b .float (.float x) (.float y) := by
  refine ⟨?_, ?_⟩
  · rw [convert?_float, ha]
    rfl
  · rw [convert?_float, hb]
    rfl

theorem exists_widenTo_of_promoteArithmetic (hmeet : a.kind.promoteArithmetic? b.kind = some kind) :
    ∃ a' b', a.WidenTo b kind a' b' ∧ ∀ op : ArithmeticOp, op.apply a b = op.apply a' b' := by
  obtain ⟨-, -, hkind⟩ := Kind.promoteArithmetic?_eq_some_iff.1 hmeet
  cases meet_of_promoteArithmetic hmeet with
  | singles x y ha hb =>
    refine ⟨.float x, .float y, widenTo_of_singles ha hb, fun op => ?_⟩
    rw [ArithmeticOp.apply_of_singles hmeet ha hb, ArithmeticOp.apply_of_singles rfl rfl rfl]
  | words m n hwords =>
    obtain ⟨a', b', hwiden, hm, hn⟩ := exists_widenTo_of_words hwords
    refine ⟨a', b', hwiden, fun op => ?_⟩
    rw [ArithmeticOp.apply_of_words hwords.left hwords.right, ArithmeticOp.apply_of_words hm hn, hwiden.kinds.1,
      hwiden.kinds.2, hkind, kind.higher_self]

theorem exists_widenTo_of_promoteInteger (hmeet : a.kind.promoteInteger? b.kind = some kind) :
    ∃ a' b', a.WidenTo b kind a' b' ∧ ∀ op : BitOp, op.apply a b = op.apply a' b' := by
  obtain ⟨-, -, hkind⟩ := Kind.promoteInteger?_eq_some_iff.1 hmeet
  obtain ⟨m, n, hwords⟩ := meetAsWords_of_promoteInteger hmeet
  obtain ⟨a', b', hwiden, hm, hn⟩ := exists_widenTo_of_words hwords
  refine ⟨a', b', hwiden, fun op => ?_⟩
  rw [BitOp.apply_of_words hwords.left hwords.right, BitOp.apply_of_words hm hn, hwiden.kinds.1, hwiden.kinds.2, hkind,
    kind.higher_self]

/-- Operands that meet give an operator what they give once they are both converted to the kind at which they meet: the same value or the same fault. A comparison makes a truth of them, and every other operator a value of that kind. -/
theorem operators_widen_first (a b : Value) :
    (a.kind.isArithmetic = true → b.kind.isArithmetic = true →
      ∃ kind a' b', a.kind.promoteArithmetic? b.kind = some kind ∧ a.convert? kind = some a' ∧
        b.convert? kind = some b' ∧ ∀ op : ArithmeticOp, op.apply a b = op.apply a' b' ∧
          ∀ v, op.apply a b = .ok v → v.kind = if op.isComparison then .bool else kind) ∧
      (a.kind.isInteger = true → b.kind.isInteger = true →
        ∃ kind a' b', a.kind.promoteInteger? b.kind = some kind ∧ a.convert? kind = some a' ∧
          b.convert? kind = some b' ∧ ∀ op : BitOp, op.apply a b = op.apply a' b' ∧
            ∀ v, op.apply a b = .ok v → v.kind = kind) := by
  refine ⟨fun ha hb => ?_, fun ha hb => ?_⟩
  · have hmeet := Kind.promoteArithmetic?_eq_some_iff.2 ⟨ha, hb, rfl⟩
    obtain ⟨a', b', hwiden, hsame⟩ := exists_widenTo_of_promoteArithmetic hmeet
    refine ⟨_, a', b', hmeet, hwiden.left, hwiden.right, fun op => ⟨hsame op, fun v hv => ?_⟩⟩
    obtain ⟨kind, hkind, hresult⟩ := ArithmeticOp.kind_of_apply hv
    cases hmeet.symm.trans hkind
    exact hresult
  · have hmeet := Kind.promoteInteger?_eq_some_iff.2 ⟨ha, hb, rfl⟩
    obtain ⟨a', b', hwiden, hsame⟩ := exists_widenTo_of_promoteInteger hmeet
    refine ⟨_, a', b', hmeet, hwiden.left, hwiden.right, fun op => ⟨hsame op, fun v hv => ?_⟩⟩
    exact Option.some.inj ((BitOp.kind_of_apply hv).symm.trans hmeet)

/-- A truth beside a float that is no number, and beside a word. -/
theorem operators_widen_first_truth :
    (∃ a, (Value.bool true).convert? .float = some a ∧
      ∀ op : ArithmeticOp, op.apply (.bool true) (.float .nan) = op.apply a (.float .nan)) ∧
      ∃ a, (Value.bool true).convert? .u32 = some a ∧
        ∀ op : BitOp, op.apply (.bool true) (.u32 6) = op.apply a (.u32 6) := by
  refine ⟨?_, ?_⟩
  · obtain ⟨kind, a, b, hmeet, ha, hb, hsame⟩ := (operators_widen_first (.bool true) (.float .nan)).1 rfl rfl
    obtain rfl : Kind.float = kind := Option.some.inj hmeet
    obtain rfl : Value.float .nan = b := Option.some.inj hb
    exact ⟨a, ha, fun op => (hsame op).1⟩
  · obtain ⟨kind, a, b, hmeet, ha, hb, hsame⟩ := (operators_widen_first (.bool true) (.u32 6)).2 rfl rfl
    obtain rfl : Kind.u32 = kind := Option.some.inj hmeet
    obtain rfl : Value.u32 6 = b := Option.some.inj hb
    exact ⟨a, ha, fun op => (hsame op).1⟩

end Value

end RuleMachine
