import RuleMachine.Value.Basic

/-!
# Kinds, and what integers stand for

An integer stands for a whole number, and its kind says how many of them it tells apart. Any whole number can be brought into a kind: truth keeps whether it is zero, the others keep a residue. A number that the kind can tell is kept as it is, so an integer is known by its kind and its number. Two kinds meet at the higher one, which tells apart whatever either of them does.
-/

namespace RuleMachine

namespace Kind

/-- How many whole numbers an integer kind tells apart. -/
def span : Kind → Nat
  | .bool => 2
  | .u8 => 256
  | .u32 => 4294967296
  | _ => 0

/-- What an integer kind keeps of a whole number. -/
def reduce (kind : Kind) (z : Int) : Nat :=
  match kind with
  | .bool => if z = 0 then 0 else 1
  | kind => (z % kind.span).toNat

variable {kind : Kind}

theorem isInteger_iff : kind.isInteger = true ↔ kind = .bool ∨ kind = .u8 ∨ kind = .u32 := by cases kind <;> decide

theorem isArithmetic_iff : kind.isArithmetic = true ↔ kind.isInteger = true ∨ kind = .float := by
  rw [isArithmetic, Bool.or_eq_true, decide_eq_true_iff]

theorem isArithmetic_of_isInteger (h : kind.isInteger = true) : kind.isArithmetic = true :=
  isArithmetic_iff.2 (.inl h)

theorem reduce_of_lt (hkind : kind.isInteger = true) {n : Nat} (hn : n < kind.span) : kind.reduce n = n := by
  obtain rfl | rfl | rfl := isInteger_iff.1 hkind
  · obtain rfl | rfl : n = 0 ∨ n = 1 := Nat.le_one_iff_eq_zero_or_eq_one.1 (Nat.le_of_lt_succ hn)
    · rfl
    · rfl
  · change ((n : Int) % 256).toNat = n
    change n < 256 at hn
    omega
  · change ((n : Int) % 4294967296).toNat = n
    change n < 4294967296 at hn
    omega

/-! ### Where kinds meet -/

/-- Operands meet at the kind of one of them. -/
theorem higher_eq (a b : Kind) : a.higher b = a ∨ a.higher b = b := by
  unfold higher
  split
  · exact .inl rfl
  · exact .inr rfl

theorem higher_self (kind : Kind) : kind.higher kind = kind := if_pos (UInt8.le_refl _)

theorem higher_higher (a b : Kind) : (a.higher b).higher b = a.higher b := by
  rcases a.higher_eq b with h | h <;> rw [h]
  · exact h
  · exact b.higher_self

theorem promoteArithmetic?_eq_some_iff {a b k : Kind} :
    a.promoteArithmetic? b = some k ↔ a.isArithmetic = true ∧ b.isArithmetic = true ∧ a.higher b = k := by
  rw [promoteArithmetic?, Option.ite_none_right_eq_some, Bool.and_eq_true, Option.some.injEq, and_assoc]

theorem promoteInteger?_eq_some_iff {a b k : Kind} :
    a.promoteInteger? b = some k ↔ a.isInteger = true ∧ b.isInteger = true ∧ a.higher b = k := by
  rw [promoteInteger?, Option.ite_none_right_eq_some, Bool.and_eq_true, Option.some.injEq, and_assoc]

theorem promoteArithmetic?_of_promoteInteger {a b k : Kind} (h : a.promoteInteger? b = some k) :
    a.promoteArithmetic? b = some k := by
  obtain ⟨ha, hb, hk⟩ := promoteInteger?_eq_some_iff.1 h
  exact promoteArithmetic?_eq_some_iff.2 ⟨isArithmetic_of_isInteger ha, isArithmetic_of_isInteger hb, hk⟩

theorem isArithmetic_of_promoteArithmetic {a b k : Kind} (h : a.promoteArithmetic? b = some k) :
    k.isArithmetic = true := by
  obtain ⟨ha, hb, rfl⟩ := promoteArithmetic?_eq_some_iff.1 h
  rcases a.higher_eq b with h | h <;> rw [h]
  · exact ha
  · exact hb

theorem eq_of_promoteInteger {a b k : Kind} (h : a.promoteInteger? b = some k) : k = a ∨ k = b := by
  obtain ⟨-, -, rfl⟩ := promoteInteger?_eq_some_iff.1 h
  exact a.higher_eq b

/-- The rank of an integer kind grows with what it tells apart. -/
theorem span_le_of_tag_le {a b : Kind} (ha : a.isInteger = true) (hb : b.isInteger = true) (h : a.tag ≤ b.tag) :
    a.span ≤ b.span := by
  obtain rfl | rfl | rfl := isInteger_iff.1 ha <;> obtain rfl | rfl | rfl := isInteger_iff.1 hb <;> revert h <;> decide

/-- Integers meet at an integer kind, which tells apart whatever either of theirs does. -/
theorem higher_of_isInteger {a b : Kind} (ha : a.isInteger = true) (hb : b.isInteger = true) :
    (a.higher b).isInteger = true ∧ a.span ≤ (a.higher b).span ∧ b.span ≤ (a.higher b).span := by
  unfold higher
  by_cases htag : b.tag ≤ a.tag
  · rw [if_pos htag]
    exact ⟨ha, Nat.le_refl _, span_le_of_tag_le hb ha htag⟩
  · rw [if_neg htag]
    exact ⟨hb, span_le_of_tag_le ha hb (UInt8.le_of_lt (UInt8.not_le.1 htag)), Nat.le_refl _⟩

/-- Of two arithmetic kinds that are not both integers one is the float, the highest of them. -/
theorem higher_eq_float {a b : Kind} (ha : a.isArithmetic = true) (hb : b.isArithmetic = true)
    (h : ¬(a.isInteger = true ∧ b.isInteger = true)) : a.higher b = .float := by
  rcases isArithmetic_iff.1 ha with hleft | rfl
  · rcases isArithmetic_iff.1 hb with hright | rfl
    · exact absurd ⟨hleft, hright⟩ h
    · obtain rfl | rfl | rfl := isInteger_iff.1 hleft <;> rfl
  · cases b <;> first | rfl | cases hb

end Kind

namespace Value

/-- The whole number that an integer stands for. -/
def payload? : Value → Option Nat
  | bool b => some b.toNat
  | u8 n => some n.toNat
  | u32 n => some n.toNat
  | _ => none

/-- The value is of the kind and stands for just this number. -/
structure Tells (v : Value) (kind : Kind) (m : Nat) : Prop where
  kind_eq : v.kind = kind
  payload_eq : v.payload? = some m

variable {v w : Value} {kind : Kind} {m : Nat}

theorem isSome_word? (v : Value) : v.word?.isSome = v.kind.isInteger := by cases v <;> rfl

theorem payload?_eq (v : Value) : v.payload? = v.word?.map UInt32.toNat := by
  cases v
  case bool b => cases b <;> rfl
  all_goals rfl

theorem payload?_eq_some_iff {n : UInt32} : v.payload? = some n.toNat ↔ v.word? = some n := by
  rw [payload?_eq, Option.map_eq_some_iff]
  simp only [UInt32.toNat_inj, exists_eq_right]

theorem exists_word_of_payload (h : v.payload? = some m) : ∃ n : UInt32, v.word? = some n ∧ n.toNat = m := by
  rw [payload?_eq] at h
  exact Option.map_eq_some_iff.1 h

theorem isInteger_of_word {n : UInt32} (h : v.word? = some n) : v.kind.isInteger = true := by
  rw [← isSome_word?, h]
  rfl

theorem isInteger_of_payload (h : v.payload? = some m) : v.kind.isInteger = true := by
  cases v <;> first | rfl | cases h

theorem exists_payload (h : v.kind.isInteger = true) : ∃ m, v.payload? = some m := by
  cases v <;> first | exact ⟨_, rfl⟩ | cases h

theorem payload_lt (h : v.payload? = some m) : m < v.kind.span := by
  cases v <;> cases h
  case bool b => exact b.toNat_lt
  case u8 n => exact n.toNat_lt
  case u32 n => exact n.toNat_lt

theorem Tells.eq (h : v.Tells kind m) (h' : w.Tells kind m) : v = w := by
  obtain ⟨rfl, hv⟩ := h
  obtain ⟨hkind, hw⟩ := h'
  cases v <;> cases w <;> cases hkind <;> cases hv
  case bool b c => cases b <;> cases c <;> first | rfl | cases hw
  case u8 n k => exact congrArg u8 (UInt8.toNat_inj.1 (Option.some.inj hw)).symm
  case u32 n k => exact congrArg u32 (UInt32.toNat_inj.1 (Option.some.inj hw)).symm

/-- A word makes a value of every integer kind. -/
theorem exists_ofWord (hkind : kind.isInteger = true) (n : UInt32) :
    ∃ v, ofWord? kind n = some v ∧ v.Tells kind (kind.reduce n.toNat) := by
  obtain rfl | rfl | rfl := Kind.isInteger_iff.1 hkind
  · refine ⟨_, rfl, ⟨rfl, ?_⟩⟩
    have hzero : (n.toNat : Int) = 0 ↔ n = 0 := by
      rw [Int.natCast_eq_zero]
      exact UInt32.toNat_inj (b := 0)
    change some (n != 0).toNat = some (if (n.toNat : Int) = 0 then 0 else 1)
    by_cases hn : n = 0
    · rw [if_pos (hzero.2 hn), hn]
      rfl
    · rw [if_neg (hn ∘ hzero.1), bne_iff_ne.2 hn]
      rfl
  · exact ⟨_, rfl, ⟨rfl, congrArg some (UInt32.toNat_toUInt8 n)⟩⟩
  · exact ⟨_, rfl, ⟨rfl, congrArg some (Nat.mod_eq_of_lt n.toNat_lt).symm⟩⟩

end Value

end RuleMachine
