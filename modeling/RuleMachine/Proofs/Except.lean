/-!
# Computations that can fail

When a computation in steps succeeds or fails, and what each step then gave. Whatever is written in `do` notation over errors is taken apart and put together by these.
-/

namespace Except

variable {ε α β : Type}

theorem ok_bind (a : α) (next : α → Except ε β) : (.ok a >>= next) = next a := rfl

theorem bind_eq_ok_iff {x : Except ε α} {next : α → Except ε β} {b : β} :
    x >>= next = .ok b ↔ ∃ a, x = .ok a ∧ next a = .ok b := by
  constructor
  · intro h
    cases x with
    | error e => cases h
    | ok a => exact ⟨a, rfl, h⟩
  · intro h
    obtain ⟨a, rfl, hnext⟩ := h
    exact hnext

/-- A computation in two steps fails in the first or in the second. -/
theorem bind_eq_error_iff {x : Except ε α} {next : α → Except ε β} {e : ε} :
    x >>= next = .error e ↔ x = .error e ∨ ∃ a, x = .ok a ∧ next a = .error e := by
  cases x <;> simp [bind, Except.bind]

/-- Where only the first step can fail, it is the one that has. -/
theorem eq_error_of_bind {x : Except ε α} {next : α → Except ε β} {e : ε} (h : x >>= next = .error e)
    (hnext : ∀ a, ∃ b, next a = .ok b) : x = .error e := by
  rcases bind_eq_error_iff.1 h with hfirst | ⟨a, -, hsecond⟩
  · exact hfirst
  · obtain ⟨b, hb⟩ := hnext a
    cases hb.symm.trans hsecond

theorem map_eq_ok_iff {x : Except ε α} {make : α → β} {b : β} :
    x.map make = .ok b ↔ ∃ a, x = .ok a ∧ make a = b := by
  cases x <;> simp [Except.map]

theorem map_eq_error_iff {x : Except ε α} {make : α → β} {e : ε} : x.map make = .error e ↔ x = .error e := by
  cases x <;> simp [Except.map]

end Except
