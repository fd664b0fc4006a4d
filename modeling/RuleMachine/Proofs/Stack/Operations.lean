import RuleMachine.Proofs.Except
import RuleMachine.Stack

/-!
# Operations on the stack, one after the other

The operations of a stack as data, so that what a run asks of its stack is a list of them. Carrying out a list stops at the first that is refused. Taking operands and pushing results comes to replacing the top values by others, as long as there is room for all of them.
-/

namespace RuleMachine

/-- What is asked of a stack. -/
inductive Stack.Operation where
  | push (v : Value)
  | popMany (n : Nat)
  | dup (offset : Nat)
  | rot (offset : Nat)
  deriving DecidableEq

namespace Stack

/-- The values that an operation gives, and the stack that it leaves. -/
def apply (s : Stack) : Operation → Except StackFault (List Value × Stack)
  | .push v => (s.push v).map ([], ·)
  | .popMany n => s.popMany n
  | .dup offset => (s.dup offset).map ([], ·)
  | .rot offset => (s.rot offset).map ([], ·)

/-- One operation after the other, up to one that is refused. -/
def carryOut (s : Stack) : List Operation → Except StackFault Stack
  | [] => .ok s
  | op :: ops => do
    let (_, s) ← s.apply op
    s.carryOut ops

/-! ### Sequences -/

variable {s : Stack}

theorem carryOut_append (ops more : List Operation) :
    s.carryOut (ops ++ more) = s.carryOut ops >>= fun s => s.carryOut more := by
  induction ops generalizing s with
  | nil => rfl
  | cons op ops ih =>
    simp only [List.cons_append, carryOut, ih, bind_assoc]

theorem carryOut_dup (s : Stack) (offset : Nat) : s.carryOut [.dup offset] = s.dup offset := by
  simp only [carryOut, apply]
  cases s.dup offset <;> rfl

theorem carryOut_rot (s : Stack) (offset : Nat) : s.carryOut [.rot offset] = s.rot offset := by
  simp only [carryOut, apply]
  cases s.rot offset <;> rfl

/-- The top values are taken, if there are to be any. -/
def taking (n : Nat) : List Operation := if n = 0 then [] else [.popMany n]

theorem carryOut_taking (s : Stack) (n : Nat) :
    s.carryOut (taking n) =
      if n ≤ s.depth then .ok { s with values := s.values.drop n } else .error (.underflow n) := by
  unfold taking
  split
  · next hn =>
    subst hn
    rfl
  · simp only [carryOut, apply, popMany]
    split <;> rfl

/-- Pushing goes well as long as there is room for all. -/
theorem carryOut_pushes (hdepth : s.depth ≤ s.limit) (values : List Value) :
    s.carryOut (values.map .push) =
      if s.depth + values.length ≤ s.limit then .ok { s with values := values.reverse ++ s.values }
      else .error .overflow := by
  induction values generalizing s with
  | nil => exact (if_pos hdepth).symm
  | cons v values ih =>
    simp only [List.map_cons, carryOut, apply, push]
    by_cases hroom : s.depth < s.limit
    · rw [if_pos hroom]
      refine (@ih { s with values := v :: s.values } hroom).trans ?_
      simp only [depth, List.length_cons, List.reverse_cons, List.append_assoc, List.singleton_append, Nat.add_assoc,
        Nat.add_comm 1]
    · rw [if_neg hroom, if_neg (by rw [List.length_cons]; omega)]
      rfl

/-- The top `n` values are replaced by others, the top first, if these find room. -/
theorem carryOut_replacing (hdepth : s.depth ≤ s.limit) {n : Nat} (hn : n ≤ s.depth) (results : List Value) :
    s.carryOut (taking n ++ results.reverse.map .push) =
      if s.depth - n + results.length ≤ s.limit then .ok { s with values := results ++ s.values.drop n }
      else .error .overflow := by
  have hrest : (Stack.mk (s.values.drop n) s.limit).depth = s.depth - n := List.length_drop
  have hbelow : (Stack.mk (s.values.drop n) s.limit).depth ≤ s.limit := by omega
  rw [carryOut_append, carryOut_taking, if_pos hn, Except.ok_bind, carryOut_pushes hbelow, hrest,
    List.length_reverse, List.reverse_reverse]

end Stack

end RuleMachine
