import RuleMachine.Operator
import RuleMachine.Proofs.Except
import RuleMachine.Proofs.Value.Conversion

/-!
# What operators make and what they refuse

An operator that accepts its operands makes a value of an arithmetic kind, whatever the operands are; arithmetic and bit operations make one of the kind at which the operands meet, comparisons apart. One that refuses them tells the kind of one of them, under the opcode it works for.
-/

namespace RuleMachine

/-! ### What the operators make -/

namespace Value

theorem ne_undefined_of_arithmetic {v : Value} (h : v.kind.isArithmetic = true) : v ≠ .undefined := by
  rintro rfl
  cases h

theorem kind_of_ofWord? {kind : Kind} {n : UInt32} {v : Value} (h : ofWord? kind n = some v) : v.kind = kind := by
  unfold ofWord? at h
  split at h <;> cases h <;> rfl

theorem kind_of_ofResult {opcode : Opcode} {kind : Kind} {n : UInt32} {v : Value}
    (h : ofResult opcode kind n = .ok v) : v.kind = kind := by
  unfold ofResult at h
  split at h <;> cases h
  next hword => exact kind_of_ofWord? hword

theorem isArithmetic_of_complement {v w : Value} (h : v.complement = .ok w) : w.kind.isArithmetic = true := by
  unfold complement at h
  split at h <;> cases h <;> rfl

theorem isArithmetic_of_datetimeDiff {a b v : Value} (h : a.datetimeDiff b = .ok v) : v.kind.isArithmetic = true := by
  obtain ⟨_, -, heq⟩ := Except.bind_eq_ok_iff.1 h
  cases heq
  rfl

theorem isArithmetic_of_datetimeCompare {order : DatetimeOrder} {mask : Datetime.Mask} {a b v : Value}
    (h : datetimeCompare order mask a b = .ok v) : v.kind.isArithmetic = true := by
  obtain ⟨_, -, heq⟩ := Except.bind_eq_ok_iff.1 h
  cases heq
  rfl

theorem isArithmetic_of_convert? {v w : Value} {target : Kind} (h : v.convert? target = some w) :
    w.kind.isArithmetic = true := by
  rw [kind_of_convert? h]
  exact (exists_convert?_iff.1 ⟨w, h⟩).2

theorem isArithmetic_of_convert {v w : Value} {target : Kind} (h : v.convert target = .ok w) :
    w.kind.isArithmetic = true := by
  unfold convert at h
  split at h <;> cases h
  next hconvert => exact isArithmetic_of_convert? hconvert

theorem isArithmetic_of_compareBlock {v w : Value} {first last : UInt8} {literal : List UInt8}
    (h : v.compareBlock first last literal = .ok w) : w.kind.isArithmetic = true := by
  obtain ⟨_, -, heq⟩ := Except.bind_eq_ok_iff.1 h
  cases heq
  rfl

theorem isArithmetic_of_compareAddress {v w : Value} {opcode : Opcode} {last : UInt8}
    (h : v.compareAddress opcode last = .ok w) : w.kind.isArithmetic = true := by
  obtain ⟨_, -, heq⟩ := Except.bind_eq_ok_iff.1 h
  cases heq
  rfl

end Value

def ArithmeticOp.isComparison : ArithmeticOp → Bool
  | .mul | .div | .mod | .add | .sub => false
  | .lt | .le | .gt | .ge | .eq | .neq => true

/-- The kind of what the operator makes of operands that meet at a kind. -/
def ArithmeticOp.resultKind (op : ArithmeticOp) (kind : Kind) : Kind := if op.isComparison then .bool else kind

theorem ArithmeticOp.kind_onSingles (op : ArithmeticOp) (x y : Single) : (op.onSingles x y).kind = op.resultKind .float := by
  cases op <;> rfl

theorem ArithmeticOp.kind_of_onIntegers {op : ArithmeticOp} {kind : Kind} {m n : UInt32} {v : Value}
    (h : op.onIntegers kind m n = .ok v) : v.kind = op.resultKind kind := by
  cases op
  case div | mod =>
    dsimp only [onIntegers] at h
    split at h
    · cases h
    · exact Value.kind_of_ofResult h
  case mul | add | sub => exact Value.kind_of_ofResult h
  all_goals
    cases h
    rfl

theorem ArithmeticOp.kind_of_apply {op : ArithmeticOp} {a b v : Value} (h : op.apply a b = .ok v) :
    ∃ kind, a.kind.promoteArithmetic? b.kind = some kind ∧ v.kind = op.resultKind kind := by
  unfold apply at h
  split at h
  · cases h
  · next hmeet =>
    split at h <;> cases h
    exact ⟨_, hmeet, op.kind_onSingles _ _⟩
  · next hmeet =>
    obtain ⟨m, -, h⟩ := Except.bind_eq_ok_iff.1 h
    obtain ⟨n, -, h⟩ := Except.bind_eq_ok_iff.1 h
    exact ⟨_, hmeet, kind_of_onIntegers h⟩

theorem ArithmeticOp.isArithmetic_of_apply {op : ArithmeticOp} {a b v : Value} (h : op.apply a b = .ok v) :
    v.kind.isArithmetic = true := by
  obtain ⟨kind, hmeet, hv⟩ := kind_of_apply h
  rw [hv, resultKind]
  split
  · rfl
  · exact Kind.isArithmetic_of_promoteArithmetic hmeet

theorem BitOp.kind_of_apply {op : BitOp} {a b v : Value} (h : op.apply a b = .ok v) :
    a.kind.promoteInteger? b.kind = some v.kind := by
  unfold apply at h
  split at h
  · cases h
  · next hmeet =>
    obtain ⟨m, -, h⟩ := Except.bind_eq_ok_iff.1 h
    obtain ⟨n, -, h⟩ := Except.bind_eq_ok_iff.1 h
    rw [hmeet, Value.kind_of_ofResult h]

theorem BitOp.isArithmetic_of_apply {op : BitOp} {a b v : Value} (h : op.apply a b = .ok v) :
    v.kind.isArithmetic = true :=
  Kind.isArithmetic_of_promoteArithmetic (Kind.promoteArithmetic?_of_promoteInteger (kind_of_apply h))

/-! ### What the operators refuse -/

/-- The fault says that the opcode does not accept one of the operands, and says its kind. -/
def Fault.Blames (opcode : Opcode) (operands : List Value) (f : Fault) : Prop :=
  ∃ v ∈ operands, f = .typeMismatch opcode v.kind

theorem Fault.Blames.of_eq {opcode : Opcode} {a b : Value} {kind : Kind} (hkind : kind = a.kind ∨ kind = b.kind) :
    Blames opcode [a, b] (.typeMismatch opcode kind) := by
  rcases hkind with rfl | rfl
  · exact ⟨a, by simp, rfl⟩
  · exact ⟨b, by simp, rfl⟩

theorem Fault.Blames.swap {opcode : Opcode} {a b : Value} {f : Fault} (h : f.Blames opcode [a, b]) :
    f.Blames opcode [b, a] := by
  obtain ⟨v, hv, rfl⟩ := h
  exact ⟨v, (List.Perm.swap b a []).mem_iff.1 hv, rfl⟩

/-- The fault blames the first operand that the opcode does not accept. -/
def Fault.BlamesFirst (opcode : Opcode) (accepts : Kind → Bool) (operands : List Value) (f : Fault) : Prop :=
  ∃ v, operands.find? (fun v => !accepts v.kind) = some v ∧ f = .typeMismatch opcode v.kind

theorem Fault.BlamesFirst.blames {opcode : Opcode} {accepts : Kind → Bool} {operands : List Value} {f : Fault}
    (h : f.BlamesFirst opcode accepts operands) : f.Blames opcode operands := by
  obtain ⟨v, hfind, rfl⟩ := h
  exact ⟨v, List.mem_of_find?_eq_some hfind, rfl⟩

theorem Fault.not_blamesFirst {opcode : Opcode} {accepts : Kind → Bool} {a b : Value} {f : Fault}
    (h : accepts a.kind = true ∧ accepts b.kind = true) : ¬f.BlamesFirst opcode accepts [a, b] := by
  rintro ⟨v, hfind, -⟩
  rw [List.find?_cons_of_neg (by simp [h.1]), List.find?_cons_of_neg (by simp [h.2])] at hfind
  cases hfind

/-- Of two operands that are not both accepted, the one to blame comes first. -/
theorem Fault.blamesFirst_iff_culprit {opcode : Opcode} {accepts : Kind → Bool} {a b : Value} {f : Fault}
    (h : ¬(accepts a.kind = true ∧ accepts b.kind = true)) :
    f.BlamesFirst opcode accepts [a, b] ↔ f = .typeMismatch opcode (culprit accepts a b) := by
  unfold BlamesFirst culprit
  by_cases ha : accepts a.kind = true
  · have hb : accepts b.kind = false := Bool.eq_false_iff.2 fun hb => h ⟨ha, hb⟩
    simp [ha, hb]
  · simp [ha]

theorem culprit_eq (accepts : Kind → Bool) (a b : Value) : culprit accepts a b = a.kind ∨ culprit accepts a b = b.kind := by
  unfold culprit
  split
  · exact .inr rfl
  · exact .inl rfl

namespace Value

variable {opcode : Opcode} {f : Fault}

theorem integer_eq_ok_iff {v : Value} {n : UInt32} : v.integer opcode = .ok n ↔ v.word? = some n := by
  unfold integer
  cases v.word? <;> simp

theorem blames_of_integer {v : Value} (h : v.integer opcode = .error f) : f.Blames opcode [v] := by
  unfold integer at h
  split at h <;> cases h
  exact ⟨v, by simp, rfl⟩

theorem blames_of_complement {v : Value} (h : v.complement = .error f) : f.Blames .not [v] := by
  unfold complement at h
  split at h <;> cases h
  exact ⟨_, by simp, rfl⟩

theorem blames_of_datetimes {a b : Value} (h : datetimes opcode a b = .error f) : f.Blames opcode [a, b] := by
  unfold datetimes at h
  split at h <;> cases h
  exact .of_eq (culprit_eq _ _ _)

theorem blames_of_convert {v : Value} {target : Kind} (h : v.convert target = .error f) :
    f.Blames target.conversionOpcode [v] := by
  unfold convert at h
  split at h <;> cases h
  exact ⟨v, by simp, rfl⟩

theorem blames_of_blockBytes {v : Value} (h : v.blockBytes opcode = .error f) : f.Blames opcode [v] := by
  unfold blockBytes at h
  split at h <;> cases h
  exact ⟨v, by simp, rfl⟩

theorem blames_of_datetimeDiff {a b : Value} (h : a.datetimeDiff b = .error f) : f.Blames .dtDiff [a, b] :=
  blames_of_datetimes (Except.eq_error_of_bind h fun _ => ⟨_, rfl⟩)

theorem blames_of_datetimeCompare {order : DatetimeOrder} {mask : Datetime.Mask} {a b : Value}
    (h : datetimeCompare order mask a b = .error f) : f.Blames order.opcode [a, b] :=
  blames_of_datetimes (Except.eq_error_of_bind h fun _ => ⟨_, rfl⟩)

theorem blames_of_compareBlock {v : Value} {first last : UInt8} {literal : List UInt8}
    (h : v.compareBlock first last literal = .error f) : f.Blames .cmpBlock [v] :=
  blames_of_blockBytes (Except.eq_error_of_bind h fun _ => ⟨_, rfl⟩)

theorem blames_of_compareAddress {v : Value} {last : UInt8} (h : v.compareAddress opcode last = .error f) :
    f.Blames opcode [v] :=
  blames_of_blockBytes (Except.eq_error_of_bind h fun _ => ⟨_, rfl⟩)

end Value

end RuleMachine
