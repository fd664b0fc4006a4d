import RuleMachine.Proofs.Assembly.Layout

/-!
# After a failure

The first failure of an assembly is its last word: whatever is asked of it afterwards, it is finished with that error. Marks and instructions that come later leave everything as it is. Raw bytes are appended all the same, so the offset still moves with them, though no program is ever made of them.
-/

namespace RuleMachine

namespace Assembly

variable {a : Assembly} {e : CodeError}

/-- The bytes that a call appends without asking whether the assembly has failed. -/
def Call.rawBytes : Call → List UInt8
  | raw bytes => bytes
  | _ => []

theorem mark_of_error (h : a.error = some e) (entry : Entry) : a.mark entry = a := by
  rw [mark, h]
  rfl

theorem append_of_error (h : a.error = some e) (i : Instruction) : a.append i = a := by
  rw [append, h]
  rfl

theorem appendAll_of_error (h : a.error = some e) (instructions : List Instruction) : a.appendAll instructions = a := by
  induction instructions with
  | nil => rfl
  | cons i instructions ih => rw [appendAll, List.foldl_cons, append_of_error h i, ← appendAll, ih]

/-- A call after a failure appends its raw bytes and does nothing else. -/
theorem apply_of_error (h : a.error = some e) (call : Call) :
    a.apply call = { a with code := a.code ++ call.rawBytes } := by
  have hnothing : a = { a with code := a.code ++ ([] : List UInt8) } := by simp
  cases call with
  | mark entry => exact (mark_of_error h entry).trans hnothing
  | append i => exact (append_of_error h i).trans hnothing
  | appendAll instructions => exact (appendAll_of_error h instructions).trans hnothing
  | switch width cases => exact (append_of_error h _).trans hnothing
  | compareBlock first literal => exact (append_of_error h _).trans hnothing
  | raw bytes => rfl

theorem foldl_of_error (h : a.error = some e) (calls : List Call) :
    calls.foldl apply a = { a with code := a.code ++ calls.flatMap Call.rawBytes } := by
  induction calls generalizing a with
  | nil => simp
  | cons call calls ih =>
    have happend : a.code ++ call.rawBytes ++ calls.flatMap Call.rawBytes
        = a.code ++ (call :: calls).flatMap Call.rawBytes := by
      apply Array.toList_inj.1
      simp
    have hcall : Assembly.error { a with code := a.code ++ call.rawBytes } = some e := h
    rw [List.foldl_cons, apply_of_error h, ih hcall, happend]

theorem append_of_refused (h : a.error = none) {i : Instruction} (hi : i.encode = .error e) :
    a.append i = { a with error := some e } := by
  rw [append, h, hi]
  rfl

theorem finish_foldl_of_error (h : a.error = some e) (calls : List Call) : (calls.foldl apply a).finish = .error e := by
  rw [foldl_of_error h, finish, h]

/-- Once an assembly has failed, every further call leaves the error that it is finished with, and all the rest of it but for raw bytes, which are still appended. -/
theorem finish_keeps_first_error {before : List Call} (hfailed : (assemble before).error = some e) (later : List Call) :
    (assemble (before ++ later)).finish = .error e ∧
      (assemble (before ++ later)).offset = (assemble before).offset + (later.flatMap Call.rawBytes).length ∧
      ((∀ bytes, .raw bytes ∉ later) → assemble (before ++ later) = assemble before) := by
  have hlater : assemble (before ++ later)
      = { assemble before with code := (assemble before).code ++ later.flatMap Call.rawBytes } := by
    rw [assemble_append]
    exact foldl_of_error hfailed later
  refine ⟨?_, ?_, ?_⟩
  · rw [assemble_append]
    exact finish_foldl_of_error hfailed later
  · rw [hlater, offset, offset, ← Array.length_toList, Array.toList_appendList, List.length_append, Array.length_toList]
  · intro hraw
    have hnone : later.flatMap Call.rawBytes = [] := by
      refine List.flatMap_eq_nil_iff.2 ?_
      intro call hcall
      cases call with
      | raw bytes => exact absurd hcall (hraw bytes)
      | _ => rfl
    rw [hlater, hnone]
    simp

/-- The comparison without a literal fails; the literal out of range and the mark after it change nothing any more, the raw byte moves the offset. -/
theorem finish_keeps_first_error_compareBlock :
    (assemble [.compareBlock 3 []]).error = some (.blockLengthMismatch 1 0) ∧
      (assemble [.compareBlock 3 [], .compareBlock 14 [1, 2, 3], .mark .packet, .raw [0x3c]]).finish
        = .error (.blockLengthMismatch 1 0) ∧
      (assemble [.compareBlock 3 [], .compareBlock 14 [1, 2, 3], .mark .packet, .raw [0x3c]]).offset = 6 := by
  have hfailed : (assemble [.compareBlock 3 []]).error = some (.blockLengthMismatch 1 0) := rfl
  obtain ⟨hfinish, hoffset, -⟩ :=
    finish_keeps_first_error hfailed [.compareBlock 14 [1, 2, 3], .mark .packet, .raw [0x3c]]
  exact ⟨hfailed, hfinish, hoffset⟩

/-- An assembly that has failed is not inert: a raw byte moves its offset. -/
theorem offset_moves_after_failure :
    (assemble [.compareBlock 3 []]).error = some (.blockLengthMismatch 1 0) ∧
      (assemble ([.compareBlock 3 []] ++ [.raw [1]])).offset ≠ (assemble [.compareBlock 3 []]).offset ∧
      ¬ ∀ (before later : List Call) (e : CodeError), (assemble before).error = some e →
        (assemble (before ++ later)).offset = (assemble before).offset ∧
          (assemble (before ++ later)).finish = .error e := by
  have hfailed : (assemble [.compareBlock 3 []]).error = some (.blockLengthMismatch 1 0) := rfl
  have hmoves : (assemble ([.compareBlock 3 []] ++ [.raw [1]])).offset ≠ (assemble [.compareBlock 3 []]).offset := by
    decide
  refine ⟨hfailed, hmoves, ?_⟩
  intro hinert
  exact hmoves (hinert _ _ _ hfailed).1

end Assembly

end RuleMachine
