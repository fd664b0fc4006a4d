import RuleMachine.Proofs.Run.Ending
import RuleMachine.Proofs.Run.OnePass

/-!
# What a run sees of the clock

An instruction looks at the clock at most once, so whatever the clock does while a program runs, the run sees one moment in each turn. A turn depends on the clock only through the moment at its own offset, and no turn comes back to an offset. So any moments that a run may see are the readings of one clock at the offsets of its turns, and what holds under every such clock holds however the clock moves.
-/

namespace RuleMachine

namespace Clock

/-- The clock does not go back: nowhere does it show less than at the start of a run, nor less where the run is farther. -/
structure Forward (clock : Clock) (start : Moment) : Prop where
  start_le : ∀ pc, start.nanoseconds ≤ (clock.reading pc).nanoseconds
  mono : ∀ a b, a ≤ b → (clock.reading a).nanoseconds ≤ (clock.reading b).nanoseconds

/-- The clock that shows this moment up to an offset and goes on as `clock` beyond it. -/
def before (clock : Clock) (offset : Nat) (now : Moment) : Clock :=
  ⟨fun pc => if pc ≤ offset then now else clock.reading pc⟩

variable {clock : Clock} {offset pc : Nat} {start now : Moment}

theorem reading_before_of_le (h : pc ≤ offset) : (clock.before offset now).reading pc = now := if_pos h

theorem reading_before_of_lt (h : offset < pc) : (clock.before offset now).reading pc = clock.reading pc :=
  if_neg (Nat.not_le.2 h)

theorem forward_still (now : Moment) : (still now).Forward now := ⟨fun _ => Int.le_refl _, fun _ _ _ => Int.le_refl _⟩

theorem Forward.of_le (h : clock.Forward now) (hle : start.nanoseconds ≤ now.nanoseconds) : clock.Forward start :=
  ⟨fun pc => Int.le_trans hle (h.start_le pc), h.mono⟩

theorem Forward.before (h : clock.Forward now) (offset : Nat) : (clock.before offset now).Forward now := by
  have hstart : ∀ pc, now.nanoseconds ≤ ((clock.before offset now).reading pc).nanoseconds := by
    intro pc
    rcases Nat.lt_or_ge offset pc with hlt | hle
    · rw [reading_before_of_lt hlt]
      exact h.start_le pc
    · exact Int.le_of_eq (congrArg Moment.nanoseconds (reading_before_of_le hle).symm)
  refine ⟨hstart, ?_⟩
  intro a b hab
  rcases Nat.lt_or_ge offset a with hlt | hle
  · rw [reading_before_of_lt hlt, reading_before_of_lt (Nat.lt_of_lt_of_le hlt hab)]
    exact h.mono a b hab
  · rw [reading_before_of_le hle]
    exact hstart b

end Clock

variable {σ : Type} {p : Program} {state : RuleState} {clock clock' : Clock}

/-- Performing looks at the clock where the instruction stands and nowhere else. -/
theorem Context.perform_congr {c : Context} (h : clock'.reading c.pc = clock.reading c.pc) (i : Instruction) :
    c.perform ⟨state, clock'⟩ i = c.perform ⟨state, clock⟩ i := by
  cases i
  case loadDwell => simp only [perform, h]
  case loadClock => simp only [perform, h]
  case jump condition _ _ => cases condition <;> rfl
  all_goals rfl

theorem Report.ofEnding_congr {outcome : Progress σ × Except Fault Ending}
    (h : clock'.reading outcome.1.context.pc = clock.reading outcome.1.context.pc) :
    Report.ofEnding state clock' outcome = Report.ofEnding state clock outcome := by
  rcases outcome with ⟨s, f | ⟨⟩ | target⟩
  · rfl
  · rfl
  · simp only [Report.ofEnding, h]

variable [Sink σ]

namespace Progress

variable {s : Progress σ} {moments : List Moment} {taken : List (Progress σ)}
  {outcome : Progress σ × Except Fault Ending}

theorem turn_congr (h : clock'.reading s.context.pc = clock.reading s.context.pc) :
    s.turn p ⟨state, clock'⟩ = s.turn p ⟨state, clock⟩ := by
  unfold turn
  cases Instruction.decode p.bytes s.context.pc with
  | error e => rfl
  | ok decoded =>
    obtain ⟨i, length⟩ := decoded
    dsimp only
    rw [@Context.perform_congr state clock clock' (s.begin i).context h]

/-- A run does not see what the clock shows at the offsets that it has passed. -/
theorem Runs.congr (h : s.Runs p ⟨state, clock⟩ taken outcome)
    (hsame : ∀ pc, s.context.pc ≤ pc → clock'.reading pc = clock.reading pc) :
    s.Runs p ⟨state, clock'⟩ taken outcome := by
  induction h with
  | last hturn => exact .last ((turn_congr (hsame _ (Nat.le_refl _))).trans hturn)
  | next hturn hrest ih =>
    have hahead := (turn_advances hturn).1
    refine .next ((turn_congr (hsame _ (Nat.le_refl _))).trans hturn) (ih ?_)
    intro pc hpc
    exact hsame pc (by omega)

/-- The run from `s` sees these moments, one in each turn, and ends so. -/
inductive Sees (p : Program) (state : RuleState) :
    Progress σ → List Moment → Progress σ × Except Fault Ending → Prop
  | last {s s' : Progress σ} {now : Moment} {ending : Except Fault Ending}
      (hturn : s.turn p ⟨state, now⟩ = (s', some ending)) : Sees p state s [now] (s', ending)
  | next {s s' : Progress σ} {now : Moment} {moments : List Moment} {outcome : Progress σ × Except Fault Ending}
      (hturn : s.turn p ⟨state, now⟩ = (s', none)) (hrest : Sees p state s' moments outcome) :
    Sees p state s (now :: moments) outcome

/-- Under a clock, a run sees what the clock shows where it takes its turns. -/
theorem Runs.sees (h : s.Runs p ⟨state, clock⟩ taken outcome) :
    s.Sees p state (taken.map fun t => clock.reading t.context.pc) outcome := by
  induction h with
  | last hturn => exact .last ((turn_congr rfl).trans hturn)
  | next hturn _ ih => exact .next ((turn_congr rfl).trans hturn) ih

/-- Whatever a run sees is what some clock shows, and one that does not go back if the moments do not. -/
theorem Sees.exists_clock (h : s.Sees p state moments outcome) :
    ∃ clock taken, s.Runs p ⟨state, clock⟩ taken outcome ∧ taken.map (fun t => clock.reading t.context.pc) = moments ∧
      ∀ start : Moment, (start :: moments).Pairwise (fun a b => a.nanoseconds ≤ b.nanoseconds) →
        clock.Forward start := by
  -- The clock is made from the last turn back: each moment is put before those of the turns that follow it.
  induction h with
  | @last s s' now ending hturn =>
    refine ⟨now, [s], .last hturn, rfl, ?_⟩
    intro start hforward
    exact (Clock.forward_still now).of_le (List.rel_of_pairwise_cons hforward List.mem_cons_self)
  | @next s s' now moments outcome hturn hrest ih =>
    obtain ⟨clock, taken, hruns, hmoments, hback⟩ := ih
    have hahead := (turn_advances hturn).1
    have hself : (clock.before s.context.pc now).reading s.context.pc = now :=
      Clock.reading_before_of_le (Nat.le_refl _)
    have hsame : ∀ pc, s'.context.pc ≤ pc → (clock.before s.context.pc now).reading pc = clock.reading pc := by
      intro pc hpc
      exact Clock.reading_before_of_lt (by omega)
    have hruns' := Runs.next ((turn_congr hself).trans hturn) (hruns.congr hsame)
    refine ⟨clock.before s.context.pc now, s :: taken, hruns', ?_, ?_⟩
    · rw [List.map_cons, hself, ← hmoments]
      refine congrArg _ (List.map_congr_left ?_)
      intro t ht
      exact hsame _ (hruns.pc_le_of_mem t ht)
    · intro start hforward
      exact ((hback now hforward.of_cons).before _).of_le (List.rel_of_pairwise_cons hforward List.mem_cons_self)

end Progress

namespace Program

variable {trigger : Option Trigger} {sink : σ} {config : Config} {moments : List Moment} {report : Report σ}

/-- The program, run once, sees these moments, one in each turn, and leaves this behind: if it changes the state, then at the last of them. -/
inductive Sees (p : Program) (state : RuleState) (trigger : Option Trigger) (sink : σ) (config : Config) :
    List Moment → Report σ → Prop
  | refused {s : Progress σ} {f : Fault} {now : Moment} (henter : p.entered state trigger sink config = (s, .error f)) :
    Sees p state trigger sink config [] (.ofEnding state now (s, .error f))
  | begun {s : Progress σ} {now : Moment} {moments : List Moment} {outcome : Progress σ × Except Fault Ending}
      (henter : p.entered state trigger sink config = (s, .ok ())) (hsees : s.Sees p state moments outcome)
      (hlast : moments.getLast? = some now) :
    Sees p state trigger sink config moments (.ofEnding state now outcome)

/-- A run ends at what the clock shows in its last turn. -/
theorem ofEnding_of_runs {s : Progress σ} {taken : List (Progress σ)} {outcome : Progress σ × Except Fault Ending}
    {now : Moment} (h : s.Runs p ⟨state, clock⟩ taken outcome)
    (hlast : (taken.map fun t => clock.reading t.context.pc).getLast? = some now) :
    Report.ofEnding state clock outcome = .ofEnding state now outcome := by
  obtain ⟨t, ht, hturn⟩ := h.exists_last
  rw [List.getLast?_map, ht] at hlast
  refine Report.ofEnding_congr ?_
  rw [Progress.pc_of_turn hturn]
  exact Option.some.inj hlast

/-- Under a clock, a run sees what the clock shows where it takes its turns. -/
theorem sees_execute (p : Program) (state : RuleState) (trigger : Option Trigger) (sink : σ) (clock : Clock)
    (config : Config) :
    p.Sees state trigger sink config ((p.turns state trigger sink clock config).map fun t => clock.reading t.context.pc)
      (p.execute state trigger sink clock config) := by
  rcases henter : p.entered state trigger sink config with ⟨s, f | ⟨⟩⟩
  · rw [turns_of_refused henter, execute_of_refused henter]
    have hrefused : p.Sees state trigger sink config [] (.ofEnding state state.created (s, .error f)) := .refused henter
    exact hrefused
  · rw [turns_of_begun henter, execute_of_begun henter]
    have hruns : s.Runs p ⟨state, clock⟩ _ _ := Progress.runs_finish s
    obtain ⟨t, hlast, -⟩ := hruns.exists_last
    have hnow : ((s.turns p ⟨state, clock⟩).map fun t => clock.reading t.context.pc).getLast? =
        some (clock.reading t.context.pc) := by rw [List.getLast?_map, hlast, Option.map_some]
    rw [ofEnding_of_runs hruns hnow]
    exact .begun henter hruns.sees hnow

/-- Whatever a run sees is what some clock shows, and one that does not go back if the moments do not. -/
theorem Sees.exists_clock (h : p.Sees state trigger sink config moments report) (start : Moment) :
    ∃ clock, (p.turns state trigger sink clock config).map (fun t => clock.reading t.context.pc) = moments ∧
      p.execute state trigger sink clock config = report ∧
        ((start :: moments).Pairwise (fun a b => a.nanoseconds ≤ b.nanoseconds) → clock.Forward start) := by
  cases h with
  | refused henter =>
    refine ⟨start, ?_, execute_of_refused henter, fun _ => Clock.forward_still start⟩
    rw [turns_of_refused henter]
    rfl
  | begun henter hsees hlast =>
    obtain ⟨clock, taken, hruns, hmoments, hforward⟩ := hsees.exists_clock
    obtain ⟨rfl, hfinish⟩ := Progress.runs_iff.1 hruns
    rw [← hmoments] at hlast
    refine ⟨clock, ?_, ?_, hforward start⟩
    · rw [turns_of_begun henter, hmoments]
    · rw [execute_of_begun henter, ← hfinish, ofEnding_of_runs hruns hlast]

/-- All that a run sees of a clock, however it moves, is what one clock for the whole run shows at the offsets of its turns; and each such clock gives a run. -/
theorem sees_iff :
    p.Sees state trigger sink config moments report ↔
      ∃ clock, (p.turns state trigger sink clock config).map (fun t => clock.reading t.context.pc) = moments ∧
        p.execute state trigger sink clock config = report := by
  constructor
  · intro h
    obtain ⟨clock, hmoments, hreport, -⟩ := h.exists_clock state.created
    exact ⟨clock, hmoments, hreport⟩
  · intro h
    obtain ⟨clock, rfl, rfl⟩ := h
    exact sees_execute p state trigger sink clock config

/-- Two times that are read one after the other differ if the clock has moved in between. -/
example :
    (execute ⟨#[0, 0, 5, 0, 5, 12, 12, 20, 59], by decide⟩ Sample.state none LoggingSink.mk Sample.clock {}).result =
      .ok (.changed 0 4294967295) := by cbv

end Program

end RuleMachine
