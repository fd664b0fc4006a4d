import RuleMachine.Proofs.Operator.Exact

/-!
# Division with remainder

The quotient, its product with the divisor and the sum of that and the remainder are none of them greater than the dividend, so the kind at which the operands meet can tell them all and nothing is lost on the way, at truth no more than at a number.
-/

namespace RuleMachine

variable {a b : Value} {kind : Kind} {m n : Nat}

/-- An exact number that the kind can tell is what the operator gives. -/
theorem ArithmeticOp.exists_tells (op : ArithmeticOp) (ha : a.payload? = some m) (hb : b.payload? = some n)
    (hkind : a.kind.higher b.kind = kind) {k : Nat} (hnumber : op.onNumbers? m n = some (.number k))
    (hk : k < kind.span) : ∃ v, op.apply a b = .ok v ∧ v.Tells kind k := by
  have hinteger := (Kind.higher_of_isInteger (Value.isInteger_of_payload ha) (Value.isInteger_of_payload hb)).1
  obtain ⟨v, happly, hshown⟩ := (Value.computesExactly_of_payload ha hb).arithmetic op _ hnumber
  rw [hkind] at hshown hinteger
  exact ⟨v, happly, Exact.tells_of_shownBy hshown hinteger hk⟩

theorem ArithmeticOp.apply_of_answer (op : ArithmeticOp) (ha : a.payload? = some m) (hb : b.payload? = some n)
    {holds : Bool} (hanswer : op.onNumbers? m n = some (.answer holds)) : op.apply a b = .ok (.bool holds) := by
  obtain ⟨v, happly, rfl⟩ := (Value.computesExactly_of_payload ha hb).arithmetic op _ hanswer
  exact happly

namespace Value

/-- Where the divisor is not zero, quotient and remainder exist and the remainder is smaller than the divisor. The product of quotient and divisor together with the remainder gives back the dividend as the common kind has it, and every number on the way is exact. -/
theorem division_law (a b : Value) (m n : Nat) (ha : a.payload? = some m) (hb : b.payload? = some n) (hn : n ≠ 0) :
    ∃ kind quotient remainder product whole, a.kind.promoteArithmetic? b.kind = some kind ∧
      ArithmeticOp.div.apply a b = .ok quotient ∧ quotient.Tells kind (m / n) ∧
      ArithmeticOp.mod.apply a b = .ok remainder ∧ remainder.Tells kind (m % n) ∧
      ArithmeticOp.mul.apply quotient b = .ok product ∧ product.Tells kind (m / n * n) ∧
      ArithmeticOp.add.apply product remainder = .ok whole ∧ whole.Tells kind m ∧
      a.convert? kind = some whole ∧ ArithmeticOp.lt.apply remainder b = .ok (.bool true) := by
  have hleft := isInteger_of_payload ha
  have hright := isInteger_of_payload hb
  have hmeet := Kind.promoteInteger?_eq_some_iff.2 ⟨hleft, hright, rfl⟩
  obtain ⟨hinteger, hspan, -⟩ := Kind.higher_of_isInteger hleft hright
  have hm : m < (a.kind.higher b.kind).span := Nat.lt_of_lt_of_le (payload_lt ha) hspan
  have hsum : m / n * n + m % n = m := Nat.div_add_mod' m n
  obtain ⟨q, hdiv, hq⟩ := (computesExactly_of_payload ha hb).quotient hn
  obtain ⟨r, hmod, hr⟩ := (computesExactly_of_payload ha hb).remainder hn
  have hqkind : q.kind.higher b.kind = a.kind.higher b.kind := by rw [hq.kind_eq, Kind.higher_higher]
  obtain ⟨p, hmul, hp⟩ :=
    ArithmeticOp.exists_tells .mul hq.payload_eq hb hqkind rfl (Nat.lt_of_le_of_lt (Nat.div_mul_le_self m n) hm)
  have hpkind : p.kind.higher r.kind = a.kind.higher b.kind := by rw [hp.kind_eq, hr.kind_eq, Kind.higher_self]
  obtain ⟨s, hadd, hs⟩ := ArithmeticOp.exists_tells .add hp.payload_eq hr.payload_eq hpkind rfl (hsum.symm ▸ hm)
  rw [hsum] at hs
  obtain ⟨w, hconvert, hw⟩ := exists_convert?_of_lt ha hinteger hm
  have hwhole : w = s := hw.eq hs
  have hless := ArithmeticOp.apply_of_answer .lt hr.payload_eq hb rfl
  rw [decide_eq_true (Nat.mod_lt m (Nat.pos_of_ne_zero hn))] at hless
  exact ⟨_, q, r, p, s, Kind.promoteArithmetic?_of_promoteInteger hmeet, hdiv, hq, hmod, hr, hmul, hp, hadd, hs,
    hwhole ▸ hconvert, hless⟩

/-- Two hundred by seven, a byte by a word, and a truth by a truth. -/
theorem division_law_mixed :
    (∃ quotient remainder, ArithmeticOp.div.apply (.u8 200) (.u32 7) = .ok quotient ∧ quotient.Tells .u32 28 ∧
      ArithmeticOp.mod.apply (.u8 200) (.u32 7) = .ok remainder ∧ remainder.Tells .u32 4 ∧
      ArithmeticOp.lt.apply remainder (.u32 7) = .ok (.bool true)) ∧
      ∃ quotient, ArithmeticOp.div.apply (.bool true) (.bool true) = .ok quotient ∧
        ArithmeticOp.mul.apply quotient (.bool true) = .ok (.bool true) := by
  refine ⟨?_, ?_⟩
  · obtain ⟨kind, q, r, p, s, hmeet, hdiv, hq, hmod, hr, -, -, -, -, -, hless⟩ :=
      division_law (.u8 200) (.u32 7) 200 7 rfl rfl (by decide)
    obtain rfl : Kind.u32 = kind := Option.some.inj hmeet
    exact ⟨q, r, hdiv, hq, hmod, hr, hless⟩
  · obtain ⟨kind, q, r, p, s, hmeet, hdiv, -, -, -, hmul, hp, -⟩ :=
      division_law (.bool true) (.bool true) 1 1 rfl rfl (by decide)
    obtain rfl : Kind.bool = kind := Option.some.inj hmeet
    obtain rfl : p = .bool true := hp.eq ⟨rfl, rfl⟩
    exact ⟨q, hdiv, hmul⟩

end Value

end RuleMachine
