import RuleMachine.Proofs.Run.Ending
import RuleMachine.Proofs.Run.Record
import RuleMachine.Proofs.Script.Assembled

/-!
# Running what was assembled

The program of a script runs like the script. The two go in step: the run stands at the offset of the index of the script, and otherwise their contexts and sinks are the same. What keeps them in step is that skips land on instructions; one that leads beyond the end of the program fails in both.
-/

namespace RuleMachine

open Assembly (Call)

variable {σ : Type}

theorem Report.verdict_ofEnding (state : RuleState) (clock : Clock) (q : Progress σ) (ending : Except Fault Ending) :
    (Report.ofEnding state clock (q, ending)).verdict =
      .ofEnding state (clock.reading q.context.pc) q.sink ending := by
  rcases ending with f | ⟨⟩ | target <;> rfl

namespace Script

/-- The run stands where the script does. -/
structure Follows (s : Script) (cue : Cue σ) (q : Progress σ) : Prop where
  context_eq : q.context = { cue.context with pc := s.offset cue.index }
  sink_eq : q.sink = cue.sink
  index_le : cue.index ≤ s.instructions.length

variable {s : Script} {p : Program} {around : Surroundings} {cue : Cue σ} {q : Progress σ}

theorem Follows.pc_eq (h : s.Follows cue q) : q.context.pc = s.offset cue.index := by rw [h.context_eq]

theorem Follows.context_begin (h : s.Follows cue q) (i : Instruction) :
    (q.begin i).context = { cue.context with opcode := i.opcode, pc := s.offset cue.index } := by
  rw [Progress.begin, h.context_eq]

variable [Sink σ]

theorem IsProgram.offset_le (hp : s.IsProgram p) {index : Nat} (h : index ≤ s.instructions.length) :
    s.offset index ≤ p.size := by
  rw [hp.size_eq]
  exact s.offset_mono h

/-- A run that goes on at the offset of an index follows the script there. -/
theorem Follows.moved (h : s.Follows cue q) (hp : s.IsProgram p) {i : Instruction} {length index bytes : Nat}
    {c : Context} {next : Next} (hdecode : Instruction.decode p.bytes q.context.pc = .ok (i, length))
    (hperform : (q.begin i).context.perform around i = .ok (c, next)) (hnext : next.passed? = some bytes)
    (hindex : index ≤ s.instructions.length) (htarget : q.context.pc + length + bytes = s.offset index) :
    ∃ q', q.turn p around = (q', none) ∧ s.Follows ⟨index, c, cue.sink⟩ q' := by
  have hle : q.context.pc + length + bytes ≤ p.size := htarget ▸ hp.offset_le hindex
  refine ⟨_, Progress.turn_eq_iff.2 (.moved hdecode hperform hnext hle), ?_, h.sink_eq, hindex⟩
  rw [htarget]

/-- A run that ends with the script stays where it followed it. -/
theorem Follows.ended (h : s.Follows cue q) {cue' : Cue σ} {q' : Progress σ} {ending : Except Fault Ending}
    (hturn : q.turn p around = (q', some ending)) (hsink : q'.sink = cue'.sink) (hindex : cue'.index = cue.index) :
    ∃ q', q.turn p around = (q', some ending) ∧ q'.sink = cue'.sink ∧ q'.context.pc = s.offset cue'.index ∧
      (some ending = none → s.Follows cue' q') := by
  have hpc : q'.context.pc = s.offset cue'.index := by rw [Progress.pc_of_turn hturn, h.pc_eq, hindex]
  exact ⟨q', hturn, hsink, hpc, fun hnone => absurd hnone (Option.some_ne_none _)⟩

/-- A turn of the script is taken by its program too, with the same ending or to where the script goes on. -/
theorem turn_follows (hp : s.IsProgram p) (hland : s.SkipsLand) (h : s.Follows cue q) {cue' : Cue σ}
    {ending : Option (Except Fault Ending)} (hturn : s.turn around cue = (cue', ending)) :
    ∃ q', q.turn p around = (q', ending) ∧ q'.sink = cue'.sink ∧ q'.context.pc = s.offset cue'.index ∧
      (ending = none → s.Follows cue' q') := by
  have hpc := h.pc_eq
  unfold turn at hturn
  cases hi : s.instructions[cue.index]? with
  | none =>
    have hindex : cue.index = s.instructions.length := Nat.le_antisymm h.index_le (List.getElem?_eq_none_iff.1 hi)
    have hend : q.context.pc = s.size := by rw [hpc, hindex, size]
    have hdecode := hp.decode_size
    rw [← hend] at hdecode
    rw [hi, ← hend] at hturn
    cases hturn
    exact h.ended (Progress.turn_eq_iff.2 (.undecoded hdecode)) h.sink_eq rfl
  | some i =>
    obtain ⟨hlt, -⟩ := List.getElem?_eq_some_iff.1 hi
    have hdecode := hp.decode_offset hi
    have hafter : q.context.pc + i.encoded.length = s.offset (cue.index + 1) := by rw [hpc, offset_succ hi]
    rw [← hpc] at hdecode
    rw [hi] at hturn
    dsimp only at hturn
    rw [← h.context_begin] at hturn
    cases hperform : (q.begin i).context.perform around i with
    | error f =>
      rw [hperform] at hturn
      cases hturn
      exact h.ended (Progress.turn_eq_iff.2 (.failed hdecode hperform)) h.sink_eq rfl
    | ok performed =>
      obtain ⟨c, next⟩ := performed
      rw [hperform] at hturn
      cases next with
      | advance =>
        cases hturn
        obtain ⟨q', hq, hfollows⟩ := h.moved hp hdecode hperform rfl hlt hafter
        exact ⟨q', hq, hfollows.sink_eq, hfollows.pc_eq, fun _ => hfollows⟩
      | skip bytes =>
        dsimp only at hturn
        have htarget : q.context.pc + i.encoded.length + bytes.toNat = s.offset (cue.index + 1) + bytes.toNat :=
          congrArg (· + bytes.toNat) hafter
        rcases hland cue.index hlt i hi bytes (Context.allows_of_perform hperform) with hbeyond | ⟨index, hindex, hoffset⟩
        · rw [goTo, indexAt?_eq_none hbeyond, ← htarget, ← hp.size_eq] at hturn
          cases hturn
          have hlt : p.size < q.context.pc + i.encoded.length + bytes.toNat := by
            rw [htarget, hp.size_eq]
            exact hbeyond
          exact h.ended (Progress.turn_eq_iff.2 (.left hdecode hperform rfl hlt)) h.sink_eq rfl
        · rw [goTo, indexAt?_eq_some_iff.2 ⟨hindex, hoffset⟩] at hturn
          cases hturn
          obtain ⟨q', hq, hfollows⟩ := h.moved hp hdecode hperform rfl hindex (htarget.trans hoffset.symm)
          exact ⟨q', hq, hfollows.sink_eq, hfollows.pc_eq, fun _ => hfollows⟩
      | write endpoint v =>
        dsimp only at hturn
        rw [← h.sink_eq] at hturn
        cases hpush : c.push (.u8 (Sink.write q.sink endpoint v).code) with
        | error f =>
          rw [hpush] at hturn
          cases hturn
          exact h.ended (Progress.turn_eq_iff.2 (.unanswered hdecode hperform hpush)) rfl rfl
        | ok c' =>
          rw [hpush] at hturn
          cases hturn
          refine ⟨_, Progress.turn_eq_iff.2 (.wrote hdecode hperform hpush), rfl, hafter, fun _ => ⟨?_, rfl, hlt⟩⟩
          rw [hafter]
      | stay =>
        cases hturn
        exact h.ended (Progress.turn_eq_iff.2 (.stayed hdecode hperform)) h.sink_eq rfl
      | change state =>
        cases hturn
        exact h.ended (Progress.turn_eq_iff.2 (.changed hdecode hperform)) h.sink_eq rfl

theorem finish_follows (hp : s.IsProgram p) (hland : s.SkipsLand) (around : Surroundings) (h : s.Follows cue q) :
    ∃ q', q.finish p around = (q', (s.finish around cue).2) ∧ q'.sink = (s.finish around cue).1.sink ∧
      q'.context.pc = s.offset (s.finish around cue).1.index := by
  fun_induction s.finish around cue generalizing q with
  | case1 cue cue' ending hturn =>
    obtain ⟨q', hq, hsink, hpc, -⟩ := turn_follows hp hland h hturn
    exact ⟨q', Progress.finish_of_last hq, hsink, hpc⟩
  | case2 cue cue' hturn ih =>
    obtain ⟨q', hq, -, -, hfollows⟩ := turn_follows hp hland h hturn
    rw [Progress.finish_of_next hq]
    exact ih (hfollows rfl)

/-! ### Whole runs -/

variable {state : RuleState} {trigger : Option Trigger} {sink : σ} {clock : Clock} {config : Config}

theorem execute_of_isProgram (hp : s.IsProgram p) (hland : s.SkipsLand) :
    (p.execute state trigger sink clock config).verdict = s.execute state trigger sink clock config := by
  have hoffset := hp.entryOffset_eq (.ofTrigger trigger)
  have hentry : (UInt16.ofNat (s.offset (s.entries (.ofTrigger trigger)))).toNat
      = s.offset (s.entries (.ofTrigger trigger)) := UInt16.toNat_ofNat_of_lt' (hp.entries_lt _)
  have hle := hp.offset_le (hp.entries_le (.ofTrigger trigger))
  rw [← hentry] at hle
  obtain ⟨q, henter, hcontext⟩ := @Program.entered_of_le σ p state trigger sink config _ hoffset hle
  rw [hentry] at hcontext
  have hfollows : s.Follows ⟨s.entries (.ofTrigger trigger), .start trigger config.effectiveStackLimit, sink⟩ q :=
    ⟨hcontext, Program.sink_of_entered henter, hp.entries_le _⟩
  obtain ⟨q', hfinish, hsink, hpc⟩ := finish_follows hp hland ⟨state, clock⟩ hfollows
  rw [Program.execute_of_begun henter, hfinish, Report.verdict_ofEnding, hsink, hpc, execute]

theorem writes_of_isProgram (hp : s.IsProgram p) (hland : s.SkipsLand) :
    p.writes state trigger sink clock config = s.writes state trigger sink clock config := by
  rw [Program.writes, writes, ← execute_of_isProgram hp hland]
  rfl

/-- Whatever is assembled from calls, except from raw bytes, with skips that land on instructions runs like the script that the calls spell: the same result, the same state, the same sink in the end and the same writes to it. -/
theorem execute_assembled {calls : List Call} {p : Program} (hraw : ∀ bytes, .raw bytes ∉ calls)
    (hwhole : ∀ i ∈ calls.flatMap Call.instructions, i.IsWhole)
    (hfinish : (Assembly.assemble calls).finish = .ok p) (hland : (ofCalls calls).SkipsLand)
    (state : RuleState) (trigger : Option Trigger) (sink : σ) (clock : Clock) (config : Config) :
    (p.execute state trigger sink clock config).verdict = (ofCalls calls).execute state trigger sink clock config ∧
      p.writes state trigger sink clock config = (ofCalls calls).writes state trigger sink clock config :=
  have hp := isProgram_of_finish hraw hwhole hfinish
  ⟨execute_of_isProgram hp hland, writes_of_isProgram hp hland⟩

/-- The calls that spell a jump over the instruction in between, to where packets come in. -/
def jumpCalls : List Call :=
  [.mark .periodic, .append .loadTrue, .append (.jump .nonZero 1 true), .append .stay, .mark .packet,
    .append (.loadU8 7), .append .changeState]

/-- What is assembled from these calls runs like their script. -/
theorem execute_assembled_jump :
    (Assembly.assemble jumpCalls).finish = .ok Sample.jump ∧
      (Sample.jump.execute Sample.state none LoggingSink.mk Sample.clock {}).verdict =
        (ofCalls jumpCalls).execute Sample.state none LoggingSink.mk Sample.clock {} :=
  ⟨by rfl, (execute_assembled (by simp [jumpCalls]) (by simp [jumpCalls, Call.instructions, Instruction.IsWhole])
    (by rfl) (by decide) Sample.state none LoggingSink.mk Sample.clock {}).1⟩

end Script

end RuleMachine
