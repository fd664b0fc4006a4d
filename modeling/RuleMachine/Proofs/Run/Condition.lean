import RuleMachine.Proofs.Run.Depth
import RuleMachine.Proofs.Run.Effect

/-!
# Jumps on a condition

The two jumps on a condition take a value from the stack and test it for zero, one skipping where the other goes on. The conversion to truth makes the same test, so a jump goes the same way with a value as with what the conversion puts in its place, floats included.
-/

namespace RuleMachine

namespace Context

/-- The jumps on a condition take the top of the stack for a zero, or for something else. -/
def BranchesOn (c : Context) (around : Surroundings) (zero : Bool) : Prop :=
  ∀ skip short,
    c.perform around (.jump .zero skip short) = .ok (c.without 1, if zero then .skip skip else .advance) ∧
      c.perform around (.jump .nonZero skip short) = .ok (c.without 1, if zero then .advance else .skip skip)

variable {c : Context} {around : Surroundings} {v : Value} {rest : List Value} {zero : Bool}

theorem jumpIf_of_values (hvalues : c.stack.values = v :: rest) (hv : v.isZero? = some zero) (wanted : Bool)
    (skip : UInt16) : c.jumpIf wanted skip = .ok (c.without 1, if zero = wanted then .skip skip else .advance) := by
  rw [jumpIf, pop_eq_ok_iff.2 ⟨rest, hvalues, rfl⟩, Except.ok_bind, without, hvalues]
  dsimp only
  rw [hv]
  rfl

theorem branchesOn_of_values (hvalues : c.stack.values = v :: rest) (hv : v.isZero? = some zero) :
    c.BranchesOn around zero := by
  intro skip short
  refine ⟨jumpIf_of_values hvalues hv true skip, (jumpIf_of_values hvalues hv false skip).trans ?_⟩
  cases zero <;> rfl

/-- A jump goes the same way before and after the conversion of its operand to truth. -/
theorem exists_converted (hvalues : c.stack.values = v :: rest) (hdepth : c.stack.depth ≤ c.stack.limit)
    (hv : v.isZero? = some zero) :
    ∃ c', c.perform around (.convert .bool) = .ok (c', .advance) ∧ c'.without 1 = c.without 1 ∧
      c.BranchesOn around zero ∧ c'.BranchesOn around zero := by
  have hconvert : v.convert .bool = .ok (.bool !zero) := by
    rw [Value.convert, Value.convert?_bool, hv]
    rfl
  have hzero : (Value.bool !zero).isZero? = some zero := by cases zero <;> rfl
  have hperform : c.perform around (.convert .bool)
      = .ok ({ c with stack := { c.stack with values := .bool (!zero) :: rest } }, .advance) :=
    mapTop_of_values (f := (·.convert .bool)) hvalues hdepth hconvert
  refine ⟨_, hperform, ?_, branchesOn_of_values hvalues hv, branchesOn_of_values rfl hzero⟩
  rw [without, without, hvalues]
  rfl

end Context

/-- A conversion is there just between arithmetic kinds, gives a value of its target and is done once. To truth it is the test for zero, which of the floats only the two zeros pass, so the jumps on a condition go the same way before and after it. To a byte it may go over 32 bits, and an integer comes back from a kind of higher rank as it was. -/
theorem Value.conversions_cohere (v : Value) (kind : Kind) :
    ((∃ w, v.convert? kind = some w) ↔ v.kind.isArithmetic = true ∧ kind.isArithmetic = true) ∧
      (∀ w, v.convert? kind = some w → w.kind = kind ∧ w.convert? kind = some w) ∧
      v.convert? .bool = v.isZero?.map (fun zero => .bool !zero) ∧
      (∀ x, v = .float x → (v.isZero? = some true ↔ x = .zero false ∨ x = .zero true)) ∧
      (∀ (c : Context) around rest zero, c.stack.values = v :: rest → c.stack.depth ≤ c.stack.limit →
        v.isZero? = some zero →
          ∃ c', c.perform around (.convert .bool) = .ok (c', .advance) ∧ c'.without 1 = c.without 1 ∧
            c.BranchesOn around zero ∧ c'.BranchesOn around zero) ∧
      v.convert? .u8 = (v.convert? .u32).bind (·.convert? .u8) ∧
      (v.kind.isInteger = true → kind.isInteger = true → v.kind.tag ≤ kind.tag →
        (v.convert? kind).bind (·.convert? v.kind) = some v) := by
  refine ⟨exists_convert?_iff, ?_, convert?_bool v, ?_, ?_, convert?_u8_eq v, convert?_back⟩
  · intro w hw
    obtain rfl := kind_of_convert? hw
    exact ⟨rfl, convert?_kind (exists_convert?_iff.1 ⟨w, hw⟩).2⟩
  · rintro x rfl
    rw [← x.isZero_iff]
    exact Option.some_inj
  · intro c around rest zero hvalues hdepth hv
    exact Context.exists_converted hvalues hdepth hv

/-- A negative zero is zero to a jump before and after its conversion, and a truth survives 32 bits. -/
theorem Value.conversions_cohere_negativeZero :
    (∀ around, ∃ c',
        Context.perform { Context.start none 32 with stack := ⟨[.float (.zero true)], 32⟩ } around (.convert .bool)
          = .ok (c', .advance) ∧ c'.BranchesOn around true) ∧
      (Value.float (.zero true)).isZero? = some true ∧ (Value.float .nan).isZero? ≠ some true ∧
      ((Value.bool true).convert? .u32).bind (·.convert? .bool) = some (.bool true) := by
  obtain ⟨-, -, -, hzero, hjump, -⟩ := conversions_cohere (.float (.zero true)) .bool
  obtain ⟨-, -, -, hnan, -⟩ := conversions_cohere (.float .nan) .bool
  obtain ⟨-, -, -, -, -, -, hback⟩ := conversions_cohere (.bool true) .u32
  refine ⟨fun around => ?_, (hzero _ rfl).2 (.inr rfl), fun h => ?_, hback rfl rfl (by decide)⟩
  · have hdepth : (1 : Nat) ≤ 32 := by decide
    obtain ⟨c', hconvert, -, -, hbranches⟩ :=
      hjump { Context.start none 32 with stack := ⟨[.float (.zero true)], 32⟩ } around [] true rfl hdepth rfl
    exact ⟨c', hconvert, hbranches⟩
  · exact absurd ((hnan _ rfl).1 h) (by decide)

end RuleMachine
