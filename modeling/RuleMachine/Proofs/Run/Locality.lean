import Mathlib.Tactic.IntervalCases
import RuleMachine.Proofs.Instruction.RoundTrip
import RuleMachine.Proofs.Run.OnePass

/-!
# What a run reads

Decoding looks at the bytes of the instruction it gives and at no others, so another program with the same bytes there has the same turn there. A run that does not leave its program therefore reads its version, its entry and the instructions it executes, and is the same run in every program that has these: the size of the program shows only where it is too small.
-/

namespace RuleMachine

variable {σ : Type} {p q : Program}

/-! ### One turn -/

namespace Progress

/-- The instruction that is executed from here stands in the other program too. -/
def SameCode (p q : Program) (s : Progress σ) : Prop :=
  ∀ a, s.placed? p = some a → ∀ k, a.Covers k → q.bytes[k]? = p.bytes[k]?

variable {around : Surroundings} {s : Progress σ}

theorem placed_forget (taken : List (Progress (Recorded σ))) : placed p (taken.map forget) = placed p taken := by
  have hforget : placed? p ∘ (forget : Progress (Recorded σ) → Progress σ) = placed? p := rfl
  rw [placed, placed, List.filterMap_map, hforget]

theorem SameCode.decode {i : Instruction} {length : Nat} (h : s.SameCode p q)
    (hdecode : Instruction.decode p.bytes s.context.pc = .ok (i, length)) :
    Instruction.decode q.bytes s.context.pc = .ok (i, length) := by
  refine Instruction.decode_of_agree hdecode ?_
  intro k hlt
  exact h ⟨s.context.pc, i, length⟩ (placed?_eq_some_iff.2 ⟨rfl, hdecode⟩) _
    ⟨Nat.le_add_right _ _, Nat.add_lt_add_left hlt _⟩

theorem SameCode.pc_le (h : s.SameCode p q) {a : Placed} (ha : s.placed? p = some a) : s.context.pc ≤ q.size := by
  obtain ⟨hpc, hdecode⟩ := placed?_eq_some_iff.1 ha
  rw [← hpc] at hdecode
  have hbounds := (Instruction.decode_bounds (h.decode hdecode)).2
  rw [Program.size]
  omega

variable [Sink σ]

theorem Turn.of_sameCode {s' : Progress σ} {ending : Option (Except Fault Ending)} (h : Turn p around s s' ending)
    (hcode : s.SameCode p q) (hroom : ending = none → s'.context.pc ≤ q.size)
    (hending : ∀ f, ending = some (.error f) → f.faultClass ≠ .malformedProgram) : Turn q around s s' ending := by
  cases h with
  | undecoded hdecode => exact absurd rfl (hending _ rfl)
  | failed hdecode hperform => exact .failed (hcode.decode hdecode) hperform
  | moved hdecode hperform hnext hle => exact .moved (hcode.decode hdecode) hperform hnext (hroom rfl)
  | left hdecode hperform hnext hlt => exact absurd rfl (hending _ rfl)
  | wrote hdecode hperform hpush => exact .wrote (hcode.decode hdecode) hperform hpush
  | unanswered hdecode hperform hpush => exact .unanswered (hcode.decode hdecode) hperform hpush
  | stayed hdecode hperform => exact .stayed (hcode.decode hdecode) hperform
  | changed hdecode hperform => exact .changed (hcode.decode hdecode) hperform

/-! ### Whole runs -/

variable {taken : List (Progress σ)} {s' : Progress σ} {ending : Except Fault Ending}

/-- A run that does not fail for its code has an instruction to begin with. -/
theorem Runs.exists_placed (h : s.Runs p around taken (s', ending))
    (hending : ∀ f, ending = .error f → f.faultClass ≠ .malformedProgram) : ∃ a, s.placed? p = some a := by
  cases h with
  | next hturn hrest =>
    obtain ⟨a, ha, -⟩ := placed_of_turn hturn
    exact ⟨a, ha⟩
  | last hturn =>
    cases hplaced : s.placed? p with
    | some a => exact ⟨a, rfl⟩
    | none =>
      unfold placed? at hplaced
      cases hdecode : Instruction.decode p.bytes s.context.pc with
      | ok decoded => simp [hdecode] at hplaced
      | error e =>
        cases hturn.symm.trans (turn_eq_iff.2 (.undecoded hdecode))
        exact absurd rfl (hending _ rfl)

theorem Runs.of_sameCode (h : s.Runs p around taken (s', ending)) (hcode : ∀ t ∈ taken, t.SameCode p q)
    (hending : ∀ f, ending = .error f → f.faultClass ≠ .malformedProgram) : s.Runs q around taken (s', ending) := by
  generalize houtcome : (s', ending) = outcome at h
  induction h with
  | last hturn =>
    cases houtcome
    have hturn' := (turn_eq_iff.1 hturn).of_sameCode (hcode _ List.mem_cons_self)
      (fun hnone => absurd hnone (Option.some_ne_none _)) (fun f hf => hending f (Option.some.inj hf))
    exact .last (turn_eq_iff.2 hturn')
  | @next s s₁ rest outcome hturn hrest ih =>
    subst houtcome
    -- The turn leads to an instruction of the run, so to a place that the other program has.
    have hrestCode : ∀ t ∈ rest, t.SameCode p q := fun t ht => hcode t (List.mem_cons_of_mem s ht)
    obtain ⟨a, ha⟩ := hrest.exists_placed hending
    have hmem : s₁ ∈ rest := List.mem_of_mem_head? (hrest.head?_eq ▸ rfl)
    have hturn' := (turn_eq_iff.1 hturn).of_sameCode (hcode s List.mem_cons_self)
      (fun _ => (hrestCode s₁ hmem).pc_le ha) (fun f hf => absurd hf.symm (Option.some_ne_none _))
    exact .next (turn_eq_iff.2 hturn') (ih hrestCode rfl)

end Progress

/-! ### What a run reads -/

/-- The byte at this offset of the header is part of the entry. -/
def Entry.Covers (entry : Entry) (offset : Nat) : Prop :=
  entry.headerOffset ≤ offset ∧ offset < entry.headerOffset + 2

instance (entry : Entry) (offset : Nat) : Decidable (entry.Covers offset) := inferInstanceAs (Decidable (_ ∧ _))

instance (a : Placed) (offset : Nat) : Decidable (a.Covers offset) := inferInstanceAs (Decidable (_ ∧ _))

def Entry.other : Entry → Entry
  | packet => periodic
  | periodic => packet

theorem Entry.lt_headerSize {entry : Entry} {k : Nat} (h : entry.Covers k) : k < Program.headerSize := by
  obtain ⟨-, hlt⟩ := h
  cases entry
  case packet => exact Nat.lt_of_lt_of_le hlt (by decide)
  case periodic => exact hlt

theorem Entry.not_covers_zero (entry : Entry) : ¬ entry.Covers 0 := by
  intro h
  cases entry <;> exact absurd h.1 (by decide)

theorem Entry.not_covers_other {entry : Entry} {k : Nat} (h : entry.Covers k) : ¬ entry.other.Covers k := by
  intro h'
  obtain ⟨hle, hlt⟩ := h
  obtain ⟨hle', hlt'⟩ := h'
  cases entry <;> simp only [other, headerOffset] at * <;> omega

namespace Program

theorem version_of_agree {version : UInt8} (h : p.version = .ok version) (hagree : q.bytes[0]? = p.bytes[0]?) :
    q.version = .ok version := by
  obtain ⟨⟨byte, r⟩, hbyte, hversion⟩ := Except.bind_eq_ok_iff.1 h
  obtain ⟨-, hget⟩ := Reader.u8_eq_ok_iff_getElem?.1 hbyte
  exact Except.bind_eq_ok_iff.2 ⟨_, Reader.u8_eq_ok_iff_getElem?.2 ⟨rfl, hagree.trans hget⟩, hversion⟩

theorem entryOffset_of_agree {entry : Entry} {offset : UInt16} (h : p.entryOffset entry = .ok offset)
    (hversion : q.bytes[0]? = p.bytes[0]?) (hentry : ∀ k, entry.Covers k → q.bytes[k]? = p.bytes[k]?) :
    q.entryOffset entry = .ok offset := by
  obtain ⟨version, hsupported, h⟩ := Except.bind_eq_ok_iff.1 h
  obtain ⟨⟨offset', r⟩, hoffset, heq⟩ := Except.bind_eq_ok_iff.1 h
  have hspans := Reader.u16_eq_ok_iff.1 hoffset
  have hlength : (BigEndian.encode 2 offset'.toNat).length = 2 := BigEndian.length_encode 2 _
  have hspans' := hspans.of_agree (List.ne_nil_of_length_eq_add_one hlength) fun k hlt =>
    hentry (entry.headerOffset + k) ⟨Nat.le_add_right _ _, Nat.add_lt_add_left (hlength ▸ hlt) _⟩
  cases heq
  exact Except.bind_eq_ok_iff.2
    ⟨_, version_of_agree hsupported hversion, Except.bind_eq_ok_iff.2 ⟨_, Reader.u16_eq_ok_iff.2 hspans', rfl⟩⟩

variable {state : RuleState} {trigger : Option Trigger} {sink : σ} {clock : Clock} {config : Config}

theorem entered_of_agree {s : Progress σ} (h : p.entered state trigger sink config = (s, .ok ()))
    (hversion : q.bytes[0]? = p.bytes[0]?)
    (hentry : ∀ k, (Entry.ofTrigger trigger).Covers k → q.bytes[k]? = p.bytes[k]?) (hle : s.context.pc ≤ q.size) :
    q.entered state trigger sink config = (s, .ok ()) := by
  obtain ⟨offset, hoffset, -, rfl⟩ := entered_eq_ok_iff.1 h
  exact entered_eq_ok_iff.2 ⟨offset, entryOffset_of_agree hoffset hversion hentry, hle, rfl⟩

variable [Sink σ]

theorem Runs.of_agree {taken : List (Progress σ)} {report : Report σ}
    (h : p.Runs state trigger sink clock config taken report)
    (hresult : ∀ f, report.result = .error f → f.faultClass ≠ .malformedProgram)
    (hversion : q.bytes[0]? = p.bytes[0]?)
    (hentry : ∀ k, (Entry.ofTrigger trigger).Covers k → q.bytes[k]? = p.bytes[k]?)
    (hcode : ∀ t ∈ taken, t.SameCode p q) : q.Runs state trigger sink clock config taken report := by
  cases h with
  | refused henter => exact absurd (faultClass_of_refused henter) (hresult _ rfl)
  | @begun s _ outcome henter hruns =>
    obtain ⟨s', ending⟩ := outcome
    have hending : ∀ f, ending = .error f → f.faultClass ≠ .malformedProgram := by
      intro f hf
      subst hf
      exact hresult f rfl
    obtain ⟨a, ha⟩ := hruns.exists_placed hending
    have hmem : s ∈ taken := List.mem_of_mem_head? (hruns.head?_eq ▸ rfl)
    exact .begun (entered_of_agree henter hversion hentry ((hcode s hmem).pc_le ha)) (hruns.of_sameCode hcode hending)

/-- The bytes that the run looks at: the version, its entry and the instructions that it executes. -/
def Reads (p : Program) (state : RuleState) (trigger : Option Trigger) (sink : σ) (clock : Clock) (config : Config)
    (offset : Nat) : Prop :=
  offset = 0 ∨ (Entry.ofTrigger trigger).Covers offset ∨
    ∃ a ∈ p.executed state trigger sink clock config, a.Covers offset

theorem executed_forget (record : List Write) :
    p.executed state trigger (⟨sink, record⟩ : Recorded σ) clock config = p.executed state trigger sink clock config :=
  ((congrArg (Progress.placed p) (turns_forget record)).trans (Progress.placed_forget _)).symm

theorem execute_of_agree
    (hresult : ∀ f, (p.execute state trigger sink clock config).result = .error f → f.faultClass ≠ .malformedProgram)
    (hagree : ∀ k, p.Reads state trigger sink clock config k → q.bytes[k]? = p.bytes[k]?) :
    q.execute state trigger sink clock config = p.execute state trigger sink clock config := by
  have hcode : ∀ t ∈ p.turns state trigger sink clock config, t.SameCode p q := by
    intro t ht a ha k hk
    exact hagree k (.inr (.inr ⟨a, List.mem_filterMap.2 ⟨t, ht, ha⟩, hk⟩))
  have hruns := runs_execute.of_agree hresult (hagree 0 (.inl rfl)) (fun k hk => hagree k (.inr (.inl hk))) hcode
  exact (runs_iff.1 hruns).2.symm

/-- The other program, run in its place, leaves the same behind and makes the same writes. -/
structure RunsLike (q p : Program) (state : RuleState) (trigger : Option Trigger) (sink : σ) (clock : Clock)
    (config : Config) : Prop where
  execute_eq : q.execute state trigger sink clock config = p.execute state trigger sink clock config
  writes_eq : q.writes state trigger sink clock config = p.writes state trigger sink clock config

theorem runsLike_of_agree
    (hresult : ∀ f, (p.execute state trigger sink clock config).result = .error f → f.faultClass ≠ .malformedProgram)
    (hagree : ∀ k, p.Reads state trigger sink clock config k → q.bytes[k]? = p.bytes[k]?) :
    q.RunsLike p state trigger sink clock config := by
  refine ⟨execute_of_agree hresult hagree, ?_⟩
  have hrecorded : q.execute state trigger (⟨sink, []⟩ : Recorded σ) clock config
      = p.execute state trigger ⟨sink, []⟩ clock config := by
    apply execute_of_agree
    · rw [← execute_forget []] at hresult
      exact hresult
    · intro k hk
      unfold Reads at hk
      rw [executed_forget] at hk
      exact hagree k hk
  rw [writes, writes, hrecorded]

/-! ### What a run does not read -/

omit [Sink σ] in
theorem entryOffset_of_entered {s : Progress σ} (h : p.entered state trigger sink config = (s, .ok ())) :
    ∃ offset, p.entryOffset (.ofTrigger trigger) = .ok offset ∧ s.context.pc = offset.toNat := by
  obtain ⟨offset, hoffset, -, rfl⟩ := entered_eq_ok_iff.1 h
  exact ⟨offset, hoffset, rfl⟩

/-- Nothing before the entry is executed. -/
theorem entry_le_of_executed {offset : UInt16} (hoffset : p.entryOffset (.ofTrigger trigger) = .ok offset) {a : Placed}
    (ha : a ∈ p.executed state trigger sink clock config) : offset.toNat ≤ a.pc := by
  rcases henter : p.entered state trigger sink config with ⟨s, f | ⟨⟩⟩
  · rw [executed, turns_of_refused henter] at ha
    exact absurd ha List.not_mem_nil
  · rw [executed, turns_of_begun henter] at ha
    obtain ⟨t, ht, hplaced⟩ := List.mem_filterMap.1 ha
    have hpc := (Progress.placed?_eq_some_iff.1 hplaced).1
    have hle := (Progress.runs_finish s).pc_le_of_mem t ht
    obtain ⟨offset', hoffset', hentry⟩ := entryOffset_of_entered henter
    cases hoffset.symm.trans hoffset'
    omega

theorem lt_size_of_reads {offset : UInt16} (hoffset : p.entryOffset (.ofTrigger trigger) = .ok offset) {k : Nat}
    (h : p.Reads state trigger sink clock config k) : k < p.size := by
  obtain ⟨version, hversion, h'⟩ := Except.bind_eq_ok_iff.1 hoffset
  obtain ⟨⟨offset', r⟩, hread, -⟩ := Except.bind_eq_ok_iff.1 h'
  have hspans := Reader.u16_eq_ok_iff.1 hread
  have hstop := hspans.position_eq
  have hle := hspans.position_le
  rw [BigEndian.length_encode] at hstop
  dsimp only at hstop hle
  change k < p.bytes.size
  rcases h with rfl | ⟨-, hlt⟩ | ⟨a, ha, -, hlt⟩
  · omega
  · omega
  · obtain ⟨t, -, hplaced⟩ := List.mem_filterMap.1 ha
    exact Nat.lt_of_lt_of_le hlt (Progress.stop_of_placed hplaced).2

/-- A run that reads its entry at all, as every run does that does not fail for its code. -/
theorem exists_entryOffset
    (hresult : ∀ f, (p.execute state trigger sink clock config).result = .error f → f.faultClass ≠ .malformedProgram) :
    ∃ offset, p.entryOffset (.ofTrigger trigger) = .ok offset := by
  rcases henter : p.entered state trigger sink config with ⟨s, f | ⟨⟩⟩
  · rw [execute_of_refused henter] at hresult
    exact absurd (faultClass_of_refused henter) (hresult f rfl)
  · obtain ⟨offset, hoffset, -⟩ := entered_eq_ok_iff.1 henter
    exact ⟨offset, hoffset⟩

/-- Two programs run alike where they differ in nothing that the run reads. -/
theorem runsLike_of_unread
    (hresult : ∀ f, (p.execute state trigger sink clock config).result = .error f → f.faultClass ≠ .malformedProgram)
    (hunread : ∀ k, q.bytes[k]? ≠ p.bytes[k]? →
      (headerSize ≤ k ∨ (Entry.ofTrigger trigger).other.Covers k) ∧
        ∀ a ∈ p.executed state trigger sink clock config, ¬ a.Covers k) :
    q.RunsLike p state trigger sink clock config := by
  refine runsLike_of_agree hresult ?_
  intro k hk
  by_contra hne
  obtain ⟨hplace, huncovered⟩ := hunread k hne
  rcases hk with rfl | hk | ⟨a, ha, hcovers⟩
  · rcases hplace with hbehind | hother
    · exact absurd hbehind (by decide)
    · exact Entry.not_covers_zero _ hother
  · rcases hplace with hbehind | hother
    · exact absurd hbehind (Nat.not_le.2 (Entry.lt_headerSize hk))
    · exact Entry.not_covers_other hk hother
  · exact huncovered a ha hcovers

/-- A run that ends by itself or fails in an instruction is the same run in every program that has the same bytes where it reads: its version, its entry and what it executes. So bytes that are appended change nothing, and neither do changes behind the header or to the other entry, as long as the run does not execute the bytes that are changed. A run whose entry lies behind the header never executes the other entry. -/
theorem execute_of_same_reads (p : Program) (state : RuleState) (trigger : Option Trigger) (sink : σ) (clock : Clock)
    (config : Config)
    (hresult : ∀ f, (p.execute state trigger sink clock config).result = .error f → f.faultClass ≠ .malformedProgram) :
    (∀ q : Program, (∀ k, p.Reads state trigger sink clock config k → q.bytes[k]? = p.bytes[k]?) →
      q.RunsLike p state trigger sink clock config) ∧
    (∀ (q : Program) (more : Array UInt8), q.bytes = p.bytes ++ more → q.RunsLike p state trigger sink clock config) ∧
    (∀ q : Program, (∀ k, q.bytes[k]? ≠ p.bytes[k]? →
        (headerSize ≤ k ∨ (Entry.ofTrigger trigger).other.Covers k) ∧
          ∀ a ∈ p.executed state trigger sink clock config, ¬ a.Covers k) →
      q.RunsLike p state trigger sink clock config) ∧
    ∀ offset, p.entryOffset (.ofTrigger trigger) = .ok offset → headerSize ≤ offset.toNat →
      ∀ q : Program, (∀ k, q.bytes[k]? ≠ p.bytes[k]? → (Entry.ofTrigger trigger).other.Covers k) →
        q.RunsLike p state trigger sink clock config := by
  refine ⟨fun q => runsLike_of_agree hresult, ?_, fun q => runsLike_of_unread hresult, ?_⟩
  · intro q more hq
    refine runsLike_of_agree hresult ?_
    intro k hk
    obtain ⟨offset, hoffset⟩ := exists_entryOffset hresult
    rw [hq, Array.getElem?_append_left (lt_size_of_reads hoffset hk)]
  · intro offset hoffset hbehind q hq
    refine runsLike_of_unread hresult ?_
    intro k hne
    have hother := hq k hne
    refine ⟨.inr hother, ?_⟩
    intro a ha hcovers
    have hentry := entry_le_of_executed hoffset ha
    have hheader := Entry.lt_headerSize hother
    have hstart := hcovers.1
    omega

/-- Another entry for packets, another byte where the jump passes over it and a byte more at the end. -/
theorem execute_of_same_reads_jump :
    (Sample.jump.execute Sample.state none LoggingSink.mk Sample.clock {}).result = .ok (.changed 0 7) ∧
      RunsLike ⟨#[0, 1, 2, 0, 5, 6, 54, 1, 255, 7, 7, 59, 60], by decide⟩ Sample.jump Sample.state none LoggingSink.mk
        Sample.clock {} := by
  have hresult : (Sample.jump.execute Sample.state none LoggingSink.mk Sample.clock {}).result =
      .ok (.changed 0 7) := by cbv
  have hexecuted : Sample.jump.executed Sample.state none LoggingSink.mk Sample.clock {} =
      [⟨5, .loadTrue, 1⟩, ⟨6, .jump .nonZero 1 true, 2⟩, ⟨9, .loadU8 7, 2⟩, ⟨11, .changeState, 1⟩] := by cbv
  refine ⟨hresult, (execute_of_same_reads _ _ _ _ _ _ ?_).2.2.1 _ ?_⟩
  · intro f hf
    cases hresult.symm.trans hf
  · intro k hne
    rw [hexecuted]
    have hk : k = 1 ∨ k = 2 ∨ k = 8 ∨ k = 12 := by
      by_contra hother
      apply hne
      by_cases hlt : k < 13
      · interval_cases k <;> simp [Sample.jump] at hother ⊢
      · simp [Sample.jump, show 12 ≤ k by omega, show 13 ≤ k by omega]
    rcases hk with rfl | rfl | rfl | rfl <;> decide

/-- Both entries lie in the header: a run executes the other entry and may jump over its own. -/
def enteredInHeader : Program := ⟨#[0, 56, 2, 0, 1, 60, 59], by decide⟩

/-- A run whose entry lies in the header stays, but fails once the one entry or the other is changed. -/
theorem execute_of_entry_in_header :
    (enteredInHeader.execute Sample.state none LoggingSink.mk Sample.clock {}).result = .ok (.stayed 0) ∧
      (execute ⟨#[0, 56, 3, 0, 1, 60, 59], by decide⟩ Sample.state none LoggingSink.mk Sample.clock {}).result =
        .error (.stackUnderflow .retChange 1 0) ∧
      (execute ⟨#[0, 56, 2, 0, 6, 60, 59], by decide⟩ Sample.state none LoggingSink.mk Sample.clock {}).result =
        .error (.stackUnderflow .retChange 1 0) ∧
      (Entry.ofTrigger none).other.Covers 2 ∧
      enteredInHeader.executed Sample.state none LoggingSink.mk Sample.clock {} =
        [⟨1, .jump .always 2 true, 2⟩, ⟨5, .stay, 1⟩] := by
  refine ⟨?_, ?_, ?_, by decide, ?_⟩ <;> cbv

end Program

end RuleMachine
