import RuleMachine.Proofs.Assembly.Built
import RuleMachine.Proofs.Assembly.Failure
import RuleMachine.Proofs.Instruction.SwitchTable
import RuleMachine.Proofs.Run.Perform
import RuleMachine.Proofs.Run.Trace

/-!
# Branches over cases

A branch is assembled from cases of a value and a skip, and refused only when they are more than one byte can count. What a run finds in the program is a table of the same cases with their values cut to its width. It takes an integer from the stack and skips, from the end of the whole instruction, as far as the first case with that value says; if there is none it just goes on.
-/

namespace RuleMachine

variable {σ : Type} {p : Program} {around : Surroundings} {width : CaseWidth} {cases : List (UInt32 × UInt16)}

namespace Progress

/-- The turn performs the instruction, leaves these values on the stack and nothing else changed, and goes on at the target, unless that lies beyond the end of the program. -/
def GoesOn [Sink σ] (s : Progress σ) (p : Program) (around : Surroundings) (i : Instruction) (values : List Value)
    (target : Nat) : Prop :=
  s.turn p around =
    if target ≤ p.size then
      ({ s.begin i with
        context := { (s.begin i).context with stack := { s.context.stack with values }, pc := target } }, none)
    else (s.begin i, some (.error (.pcOutOfRange target p.size)))

/-- What a turn does that finds this branch at the place where it stands, with an operand on top of the stack. -/
structure Branches [Sink σ] (s : Progress σ) (p : Program) (table : SwitchTable) (width : CaseWidth)
    (cases : List (UInt32 × UInt16)) (stop : Nat) : Prop where
  /-- The first case with the value of the operand decides. -/
  taken : ∀ around v rest key skip, s.context.stack.values = v :: rest → v.word? = some key →
    SwitchTable.Decides width cases key skip → s.GoesOn p around (.switch table) rest (stop + skip.toNat)
  passed : ∀ around v rest key, s.context.stack.values = v :: rest → v.word? = some key →
    (∀ case ∈ cases, case.1.toNat % 2 ^ width.bits ≠ key.toNat) → s.GoesOn p around (.switch table) rest stop
  /-- The width cannot hold the value of the operand. -/
  beyond : ∀ around v rest key, s.context.stack.values = v :: rest → v.word? = some key →
    2 ^ width.bits ≤ key.toNat → s.GoesOn p around (.switch table) rest stop
  refused : ∀ around v rest, s.context.stack.values = v :: rest → v.kind.isInteger = false →
    s.turn p around = (s.begin (.switch table), some (.error (.typeMismatch width.opcode v.kind)))

variable [Sink σ] {s : Progress σ} {table : SwitchTable} {length : Nat} {v : Value} {rest : List Value} {key : UInt32}

theorem goesOn_of_switch {bytes : Nat}
    (hdecode : Instruction.decode p.bytes s.context.pc = .ok (.switch table, length))
    (hvalues : s.context.stack.values = v :: rest) (hv : v.word? = some key)
    (hnext : ((table.lookup? key).elim Next.advance Next.skip).passed? = some bytes) :
    s.GoesOn p around (.switch table) rest (s.context.pc + length + bytes) := by
  have hperform : (s.begin (.switch table)).context.perform around (.switch table) = _ :=
    Context.perform_switch_of_word hvalues hv
  rw [GoesOn, turn_of_passed hdecode hperform hnext]
  split
  · next hle => exact goTo_of_le hle
  · next hlt => exact goTo_of_lt (Nat.not_le.1 hlt)

/-- Where a branch that was made from these cases is decoded, a turn follows them. -/
theorem branches_of_decode (hdecode : Instruction.decode p.bytes s.context.pc = .ok (.switch (.ofCases width cases), length)) :
    s.Branches p (.ofCases width cases) width cases (s.context.pc + length) := by
  have hpassed : ∀ around v rest key, s.context.stack.values = v :: rest → v.word? = some key →
      (∀ case ∈ cases, case.1.toNat % 2 ^ width.bits ≠ key.toNat) →
        s.GoesOn p around (.switch (.ofCases width cases)) rest (s.context.pc + length) := by
    intro around v rest key hvalues hv hnone
    change s.GoesOn p around _ rest (s.context.pc + length + 0)
    refine goesOn_of_switch hdecode hvalues hv ?_
    rw [SwitchTable.lookup?_ofCases_eq_none_iff.2 hnone]
    rfl
  refine ⟨?_, hpassed, ?_, ?_⟩
  · intro around v rest key skip hvalues hv hdecides
    refine goesOn_of_switch hdecode hvalues hv ?_
    rw [SwitchTable.lookup?_ofCases_eq_some_iff.2 hdecides]
    rfl
  · intro around v rest key hvalues hv hbeyond
    exact hpassed around v rest key hvalues hv fun case _ => SwitchTable.ne_of_pow_bits_le hbeyond case.1
  · intro around v rest hvalues hkind
    have hword : v.word? = none := by
      rw [← Option.not_isSome_iff_eq_none, v.isSome_word?, hkind]
      exact Bool.false_ne_true
    exact turn_eq_iff.2 (.failed hdecode (Context.perform_switch_of_kind hvalues hword))

end Progress

namespace Assembly

theorem operandError_switch_eq_none_iff {table : SwitchTable} :
    (Instruction.switch table).operandError? = none ↔ table.size ≤ 255 := by
  simp [Instruction.operandError?]

theorem encode_switch_of_many (h : 255 < cases.length) :
    (Instruction.switch (.ofCases width cases)).encode = .error (.tooManyCases cases.length) := by
  rw [Instruction.encode, Instruction.operandError?, SwitchTable.size_ofCases, if_pos h]

theorem length_encoded_switch (width : CaseWidth) (cases : List (UInt32 × UInt16)) :
    (Instruction.switch (.ofCases width cases)).encoded.length = 2 + cases.length * width.entrySize := by
  have hlength := SwitchTable.length_entries_ofCases width cases
  rw [Instruction.encoded, Instruction.operandBytes, List.length_cons, List.length_cons, hlength]
  omega

/-- A branch over more than 255 cases is refused with their number, and any other is accepted. It is decoded where it was assembled, as a table of the cases in their order with their values cut to the width. A turn there takes an integer from the stack and goes on behind the branch and the bytes that the first case with this value skips, or just behind the branch; an operand of another kind is refused under the opcode of the branch. -/
theorem switch_follows_cases (width : CaseWidth) (cases : List (UInt32 × UInt16)) :
    (255 < cases.length → ∀ before after, (assemble before).error = none →
        (assemble (before ++ .switch width cases :: after)).finish = .error (.tooManyCases cases.length)) ∧
      (cases.length ≤ 255 →
        (∀ before, (assemble before).error = none →
          (assemble before).offset + (2 + cases.length * width.entrySize) ≤ 65536 →
            ∃ p, (assemble (before ++ [.switch width cases])).finish = .ok p) ∧
        ∀ before after p, (assemble (before ++ .switch width cases :: after)).finish = .ok p →
          ∃ table, Instruction.decode p.bytes (assemble before).offset
              = .ok (.switch table, 2 + cases.length * width.entrySize) ∧
            table.width = width ∧
            table.cases = cases.map (fun case => (UInt32.ofNat (case.1.toNat % 2 ^ width.bits), case.2)) ∧
            ∀ (σ : Type) [Sink σ] (s : Progress σ), s.context.pc = (assemble before).offset →
              s.Branches p table width cases
                ((assemble before).offset + (2 + cases.length * width.entrySize))) := by
  refine ⟨?_, fun hfew => ⟨?_, ?_⟩⟩
  · intro hmany before after hbefore
    have hfailed : ((assemble before).apply (.switch width cases)).error = some (.tooManyCases cases.length) := by
      change ((assemble before).append _).error = _
      rw [append_of_refused hbefore (encode_switch_of_many hmany)]
    rw [assemble_append, List.foldl_cons]
    exact finish_foldl_of_error hfailed after
  · intro before hbefore hroom
    have hcases : (SwitchTable.ofCases width cases).size ≤ 255 := by
      rw [SwitchTable.size_ofCases]
      exact hfew
    rw [← length_encoded_switch] at hroom
    exact (exists_finish_concat_iff hbefore rfl hroom).2 (operandError_switch_eq_none_iff.2 hcases)
  · intro before after p hfinish
    have hdecode := decode_of_finish hfinish rfl (SwitchTable.isWhole_ofCases width cases)
    rw [length_encoded_switch] at hdecode
    refine ⟨.ofCases width cases, hdecode, rfl, SwitchTable.cases_ofCases width cases, ?_⟩
    intro σ _ s hs
    rw [← hs] at hdecode ⊢
    exact Progress.branches_of_decode hdecode

/-- Of two cases that the width makes the same the first one decides; 256 cases are too many. -/
theorem switch_follows_cases_same :
    (assemble [.switch .w32 (List.replicate 256 (7, 0))]).finish = .error (.tooManyCases 256) ∧
      (assemble [.switch .w8 [(0x1ff, 1), (0xff, 0)], .append .loadTrue, .append .stay]).finish
        = .ok ⟨#[0, 0, 5, 0, 5, 0x21, 2, 0xff, 0, 1, 0xff, 0, 0, 6, 60], by decide⟩ ∧
      ∃ table, Instruction.decode #[0, 0, 5, 0, 5, 0x21, 2, 0xff, 0, 1, 0xff, 0, 0, 6, 60] 5 = .ok (.switch table, 8) ∧
        table.cases = [(0xff, 1), (0xff, 0)] ∧
        ∀ around, ∃ s' : Progress LoggingSink,
          Progress.turn ⟨#[0, 0, 5, 0, 5, 0x21, 2, 0xff, 0, 1, 0xff, 0, 0, 6, 60], by decide⟩ around
              ⟨{ Context.start none 32 with stack := ⟨[.u32 0xff], 32⟩, pc := 5 }, LoggingSink.mk, #[]⟩ = (s', none) ∧
            s'.context.pc = 14 ∧ s'.context.stack.values = [] := by
  have hlength : 255 < (List.replicate 256 ((7, 0) : UInt32 × UInt16)).length := by
    rw [List.length_replicate]
    decide
  have hmany := (switch_follows_cases .w32 (List.replicate 256 (7, 0))).1 hlength [] [] rfl
  rw [List.length_replicate] at hmany
  have hfinish : (assemble [.switch .w8 [(0x1ff, 1), (0xff, 0)], .append .loadTrue, .append .stay]).finish
      = .ok ⟨#[0, 0, 5, 0, 5, 0x21, 2, 0xff, 0, 1, 0xff, 0, 0, 6, 60], by decide⟩ := by rfl
  obtain ⟨table, hdecode, -, hcases, hbranches⟩ :=
    ((switch_follows_cases .w8 [(0x1ff, 1), (0xff, 0)]).2 (by decide)).2 [] [.append .loadTrue, .append .stay] _ hfinish
  refine ⟨hmany, hfinish, table, hdecode, hcases, ?_⟩
  intro around
  have hdecides : SwitchTable.Decides .w8 [(0x1ff, 1), (0xff, 0)] 0xff 1 :=
    ⟨[], 0x1ff, [(0xff, 0)], rfl, rfl, fun case hcase => absurd hcase List.not_mem_nil⟩
  have hgoes := (hbranches LoggingSink
    ⟨{ Context.start none 32 with stack := ⟨[.u32 0xff], 32⟩, pc := 5 }, LoggingSink.mk, #[]⟩ rfl).taken around
      (.u32 0xff) [] 0xff 1 rfl rfl hdecides
  exact ⟨_, hgoes.trans (if_pos (by decide)), rfl, rfl⟩

end Assembly

end RuleMachine
