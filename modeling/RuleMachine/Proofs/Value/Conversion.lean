import RuleMachine.Proofs.Value.Payload

/-!
# Conversions

A conversion goes between any two arithmetic kinds. To a float it widens, to truth it tests for zero, and to an integer it keeps what the kind can tell, so an integer survives a conversion to a higher kind and back.
-/

namespace RuleMachine

/-- The zero of either sign is zero, and no other number is; a NaN in particular is not. -/
theorem Single.isZero_iff (x : Single) : x.isZero = true ↔ x = zero false ∨ x = zero true := by
  have heq (n : UInt32) : x = ⟨n⟩ ↔ x.bits.toNat = n.toNat := by rw [UInt32.toNat_inj, ← Single.mk.injEq]
  have hlt : x.bits.toNat < 4294967296 := x.bits.toNat_lt
  change decide (x.bits.toNat % 2147483648 = 0) = true ↔ x = ⟨0⟩ ∨ x = ⟨2147483648⟩
  rw [decide_eq_true_iff, heq, heq]
  change _ ↔ x.bits.toNat = 0 ∨ x.bits.toNat = 2147483648
  omega

namespace Value

variable {v w : Value} {kind : Kind} {m : Nat}

theorem isSome_single? (v : Value) : v.single?.isSome = v.kind.isArithmetic := by cases v <;> rfl

theorem isSome_convert? (v : Value) (kind : Kind) :
    (v.convert? kind).isSome = (v.kind.isArithmetic && kind.isArithmetic) := by
  cases v <;> cases kind <;> rfl

theorem exists_convert?_iff :
    (∃ w, v.convert? kind = some w) ↔ v.kind.isArithmetic = true ∧ kind.isArithmetic = true := by
  rw [← Option.isSome_iff_exists, isSome_convert?, Bool.and_eq_true]

theorem kind_of_convert? (h : v.convert? kind = some w) : w.kind = kind := by
  cases v <;> cases kind <;> cases h <;> rfl

theorem convert?_kind (hv : v.kind.isArithmetic = true) : v.convert? v.kind = some v := by
  cases v <;> first | rfl | cases hv

/-! ### What a conversion gives -/

theorem convert?_float (v : Value) : v.convert? .float = v.single?.map float := by cases v <;> rfl

/-- The conversion to truth is the test for zero. -/
theorem convert?_bool (v : Value) : v.convert? .bool = v.isZero?.map fun zero => bool !zero := by
  cases v
  case bool b => cases b <;> rfl
  all_goals rfl

theorem convert?_of_word {n : UInt32} (hv : v.word? = some n) (hkind : kind.isInteger = true) :
    v.convert? kind = ofWord? kind n := by
  cases v <;> cases hv
  case bool.refl b => cases b <;> obtain rfl | rfl | rfl := Kind.isInteger_iff.1 hkind <;> rfl
  case u8.refl n =>
    obtain rfl | rfl | rfl := Kind.isInteger_iff.1 hkind
    · rfl
    · exact congrArg (some ∘ u8) (UInt8.toUInt8_toUInt32 n).symm
    · rfl
  case u32.refl => obtain rfl | rfl | rfl := Kind.isInteger_iff.1 hkind <;> rfl

/-- An integer kind keeps of an integer what it can tell. -/
theorem exists_convert?_of_payload (hv : v.payload? = some m) (hkind : kind.isInteger = true) :
    ∃ w, v.convert? kind = some w ∧ w.Tells kind (kind.reduce m) := by
  obtain ⟨n, hword, rfl⟩ := exists_word_of_payload hv
  rw [convert?_of_word hword hkind]
  exact exists_ofWord hkind n

/-- An integer kind that can tell the number of an integer keeps it. -/
theorem exists_convert?_of_lt (hv : v.payload? = some m) (hkind : kind.isInteger = true) (hm : m < kind.span) :
    ∃ w, v.convert? kind = some w ∧ w.Tells kind m := by
  obtain ⟨w, hconvert, hw⟩ := exists_convert?_of_payload hv hkind
  rw [Kind.reduce_of_lt hkind hm] at hw
  exact ⟨w, hconvert, hw⟩

theorem exists_convert?_of_word {n : UInt32} (hv : v.word? = some n) (hkind : kind.isInteger = true)
    (hn : n.toNat < kind.span) : ∃ w, v.convert? kind = some w ∧ w.kind = kind ∧ w.word? = some n := by
  obtain ⟨w, hconvert, hw⟩ := exists_convert?_of_lt (payload?_eq_some_iff.2 hv) hkind hn
  exact ⟨w, hconvert, hw.kind_eq, payload?_eq_some_iff.1 hw.payload_eq⟩

/-- The low byte of a number is that of its 32 bits. -/
theorem convert?_u8_eq (v : Value) : v.convert? .u8 = (v.convert? .u32).bind (·.convert? .u8) := by
  cases v
  case bool b => cases b <;> rfl
  case u8 n => exact congrArg (some ∘ u8) (UInt8.toUInt8_toUInt32 n).symm
  all_goals rfl

/-- An integer comes back from a kind of higher rank as it was. -/
theorem convert?_back (hv : v.kind.isInteger = true) (hkind : kind.isInteger = true) (hrank : v.kind.tag ≤ kind.tag) :
    (v.convert? kind).bind (·.convert? v.kind) = some v := by
  obtain ⟨m, hm⟩ := exists_payload hv
  have hlt : m < v.kind.span := payload_lt hm
  have hspan : v.kind.span ≤ kind.span := Kind.span_le_of_tag_le hv hkind hrank
  obtain ⟨w, hconvert, hw⟩ := exists_convert?_of_lt hm hkind (Nat.lt_of_lt_of_le hlt hspan)
  obtain ⟨u, hback, hu⟩ := exists_convert?_of_lt hw.payload_eq hv hlt
  rw [hconvert, Option.bind_some, hback, hu.eq ⟨rfl, hm⟩]

end Value

end RuleMachine
