import RuleMachine.Proofs.Machine.Validated
import RuleMachine.Proofs.Run.Clock

/-!
# Time in a state

How long a program has been in its state is the difference of two times that were each rounded down to seconds since the origin. As long as the clock never goes back, between operations or during a run, and no state is restored, the one that is subtracted is the smaller: that is the invariant here, kept by every operation. Whatever enters a state counts from zero again, and everything else leaves the count to the clock.
-/

namespace RuleMachine

/-! ### Times in whole seconds -/

namespace Moment

/-- Whole seconds from one moment to another, rounded down and without a limit. -/
def secondsTo (a b : Moment) : Int := (b.nanoseconds - a.nanoseconds) / 1000000000

variable {a b origin : Moment}

theorem toNat_secondsSince (a origin : Moment) :
    (a.secondsSince origin).toNat = min (origin.secondsTo a).toNat 0xffffffff :=
  UInt32.toNat_ofNat_of_lt' (Nat.lt_of_le_of_lt (Nat.min_le_right _ _) (by decide))

theorem secondsSince_self (a : Moment) : a.secondsSince a = 0 := by
  rw [secondsSince, Int.sub_self]
  rfl

theorem secondsSince_le (h : a.nanoseconds ≤ b.nanoseconds) : a.secondsSince origin ≤ b.secondsSince origin := by
  rw [UInt32.le_iff_toNat_le, toNat_secondsSince, toNat_secondsSince, secondsTo, secondsTo]
  omega

/-- Two times that were rounded down are apart by their distance rounded down, or by a second more. -/
theorem secondsSince_sub (horigin : origin.nanoseconds ≤ a.nanoseconds) (hle : a.nanoseconds ≤ b.nanoseconds)
    (hnear : origin.secondsTo b < 4294967296) :
    ((b.secondsSince origin).toNat - (a.secondsSince origin).toNat : Nat) = a.secondsTo b ∨
      ((b.secondsSince origin).toNat - (a.secondsSince origin).toNat : Nat) = a.secondsTo b + 1 := by
  rw [toNat_secondsSince, toNat_secondsSince]
  unfold secondsTo at *
  omega

end Moment

namespace RuleState

variable {s : RuleState} {now later : Moment}

theorem dwell_enter (s : RuleState) (target : UInt32) (now : Moment) : (s.enter target now).dwell now = 0 :=
  UInt32.sub_self _

theorem dwell_start (initial : UInt32) (now : Moment) : (start initial now).dwell now = 0 := by
  rw [dwell, timestamp, start, Moment.secondsSince_self]
  exact UInt32.sub_self 0

theorem toNat_dwell (h : s.enteredAt ≤ s.timestamp now) :
    (s.dwell now).toNat = (s.timestamp now).toNat - s.enteredAt.toNat := UInt32.toNat_sub_of_le _ _ h

theorem dwell_le (h : s.enteredAt ≤ s.timestamp now) (hle : now.nanoseconds ≤ later.nanoseconds) :
    s.dwell now ≤ s.dwell later := by
  have hlater : s.timestamp now ≤ s.timestamp later := Moment.secondsSince_le hle
  rw [UInt32.le_iff_toNat_le, toNat_dwell h, toNat_dwell (UInt32.le_trans h hlater)]
  exact Nat.sub_le_sub_right hlater _

/-- A state that has just been entered was entered at the time it is now. -/
theorem enteredAt_eq_of_dwell (h : s.dwell now = 0) : s.enteredAt = s.timestamp now := by
  have hback : s.enteredAt + s.dwell now = s.timestamp now := by
    rw [dwell, UInt32.add_comm, UInt32.sub_add_cancel]
  rwa [h, UInt32.add_zero] at hback

end RuleState

variable {σ : Type} [Sink σ]

namespace Machine

/-- How long the program has been in its state now. -/
def dwell (m : Machine σ) : UInt32 := m.state.dwell m.now

/-! ### Forward histories -/

/-- The clock does not go back with the operation, and it restores no state. -/
def MovesForward (m : Machine σ) : Operation σ → Prop
  | .setClock now => m.now.nanoseconds ≤ now.nanoseconds
  | .advanceClock nanoseconds => m.now.nanoseconds ≤ (m.now.advance nanoseconds).nanoseconds
  | .run _ clock => clock.Forward m.now
  | .restore _ => False
  | .load _ _ _ _ | .replace _ | .write _ _ => True

/-- The operation enters a state: it loads a machine, replaces the program or is a run that ends in a change. -/
def Enters (m : Machine σ) : Operation σ → Prop
  | .run trigger clock => ∃ before after, (m.apply (.run trigger clock)).2 = .ran (.ok (.changed before after))
  | .load p sink now config => (m.apply (.load p sink now config)).2 = .done
  | .replace p => (m.apply (.replace p)).2 = .done
  | _ => False

/-- The operation enters no state. -/
def Stays (m : Machine σ) (operation : Operation σ) : Prop := ¬ m.Enters operation

/-- All of these operations, one after another, are so. -/
def Throughout (m : Machine σ) (P : Machine σ → Operation σ → Prop) : List (Operation σ) → Prop
  | [] => True
  | operation :: operations => P m operation ∧ (m.apply operation).1.Throughout P operations

/-- Times are in order: the origin, the time at which the state was entered, now. -/
structure InOrder (m : Machine σ) : Prop where
  created_le : m.state.created.nanoseconds ≤ m.now.nanoseconds
  enteredAt_le : m.state.enteredAt ≤ m.state.timestamp m.now

variable {m : Machine σ} {operation : Operation σ}

theorem after_append (m : Machine σ) (operations later : List (Operation σ)) :
    m.after (operations ++ later) = (m.after operations).after later := List.foldl_append

theorem throughout_append {P : Machine σ → Operation σ → Prop} {operations later : List (Operation σ)} :
    m.Throughout P (operations ++ later) ↔ m.Throughout P operations ∧ (m.after operations).Throughout P later := by
  induction operations generalizing m with
  | nil => simp [Throughout, after]
  | cons operation operations ih =>
    rw [List.cons_append, Throughout, Throughout, ih, and_assoc]
    rfl

/-! ### One operation -/

theorem result_run (m : Machine σ) (trigger : Option Trigger) (clock : Clock) :
    (m.run trigger clock).2.1.toOption = (m.ending? trigger clock).map (Ending.outcome m.state.current) :=
  Program.toOption_result

/-- A run enters a state exactly if it ends in a change. -/
theorem enters_run_iff {trigger : Option Trigger} {clock : Clock} :
    m.Enters (.run trigger clock) ↔ ∃ target, m.ending? trigger clock = some (.change target) := by
  have hresult := m.result_run trigger clock
  constructor
  · intro h
    obtain ⟨before, after, hran⟩ := h
    have hchanged : (m.run trigger clock).2.1 = .ok (.changed before after) := Reply.ran.inj hran
    rw [hchanged] at hresult
    rcases hending : m.ending? trigger clock with _ | ⟨⟩ | target
    · rw [hending] at hresult
      cases hresult
    · rw [hending] at hresult
      cases hresult
    · exact ⟨target, rfl⟩
  · intro h
    obtain ⟨target, hending⟩ := h
    rw [hending] at hresult
    rcases hran : (m.run trigger clock).2.1 with f | outcome
    · rw [hran] at hresult
      cases hresult
    · rw [hran] at hresult
      cases hresult
      exact ⟨_, _, congrArg Reply.ran hran⟩

/-- A forward operation either enters a state, at the time to which it comes and with the origin kept or in a machine just loaded, or leaves the state as it is. -/
theorem forward_cases (h : m.MovesForward operation) :
    (m.Enters operation ∧
        ((∃ initial, (m.apply operation).1.state = .start initial (m.apply operation).1.now) ∨
          m.now.nanoseconds ≤ (m.apply operation).1.now.nanoseconds ∧
            ∃ target, (m.apply operation).1.state = m.state.enter target (m.apply operation).1.now)) ∨
      (¬ m.Enters operation ∧ (m.apply operation).1.state = m.state ∧
        m.now.nanoseconds ≤ (m.apply operation).1.now.nanoseconds) := by
  cases operation with
  | load p sink now config =>
    rcases m.apply_load p sink now config with ⟨hadmits, happly⟩ | ⟨hadmits, f, happly⟩
    · refine .inl ⟨(m.reply_load p sink now config).2 hadmits, .inl ⟨config.initialState, ?_⟩⟩
      rw [happly]
    · refine .inr ⟨fun henters => hadmits ((m.reply_load p sink now config).1 henters), ?_⟩
      rw [happly]
      exact ⟨rfl, Int.le_refl _⟩
  | replace p =>
    rcases m.apply_replace p with ⟨hadmits, happly⟩ | ⟨hadmits, f, happly⟩
    · refine .inl ⟨reply_replace.2 hadmits, .inr ?_⟩
      rw [happly]
      exact ⟨Int.le_refl _, m.config.initialState, rfl⟩
    · refine .inr ⟨fun henters => hadmits (reply_replace.1 henters), ?_⟩
      rw [happly]
      exact ⟨rfl, Int.le_refl _⟩
  | run trigger clock =>
    have hstate := m.state_run trigger clock
    have hle : m.now.nanoseconds ≤ (m.run trigger clock).1.now.nanoseconds := by
      rw [now_run]
      exact h.start_le _
    rw [← now_run] at hstate
    rw [apply_run]
    by_cases henters : m.Enters (.run trigger clock)
    · obtain ⟨target, hending⟩ := enters_run_iff.1 henters
      rw [hending] at hstate
      exact .inl ⟨henters, .inr ⟨hle, target, hstate⟩⟩
    · refine .inr ⟨henters, ?_, hle⟩
      rcases hending : m.ending? trigger clock with _ | ⟨⟩ | target
      · rw [hstate, hending]
        rfl
      · rw [hstate, hending]
        rfl
      · exact absurd (enters_run_iff.2 ⟨target, hending⟩) henters
  | setClock now => exact .inr ⟨id, rfl, h⟩
  | advanceClock nanoseconds =>
    have happly : (m.apply (.advanceClock nanoseconds)).1 = { m with now := m.now.advance nanoseconds } := by
      rw [apply, advanceClock]
    rw [happly]
    exact .inr ⟨id, rfl, h⟩
  | write endpoint v => exact .inr ⟨id, rfl, Int.le_refl _⟩
  | restore state => exact absurd h id

theorem inOrder_apply (h : m.InOrder) (hforward : m.MovesForward operation) : (m.apply operation).1.InOrder := by
  rcases forward_cases hforward with ⟨-, ⟨initial, hstate⟩ | ⟨hle, target, hstate⟩⟩ | ⟨-, hstate, hle⟩
  · constructor
    · rw [hstate]
      exact Int.le_refl _
    · rw [hstate]
      exact UInt32.zero_le
  · constructor
    · rw [hstate]
      exact Int.le_trans h.created_le hle
    · rw [hstate]
      exact UInt32.le_refl _
  · constructor
    · rw [hstate]
      exact Int.le_trans h.created_le hle
    · rw [hstate]
      exact UInt32.le_trans h.enteredAt_le (Moment.secondsSince_le hle)

theorem dwell_of_enters (hforward : m.MovesForward operation) (henters : m.Enters operation) :
    (m.apply operation).1.dwell = 0 := by
  rcases forward_cases hforward with ⟨-, ⟨initial, hstate⟩ | ⟨-, target, hstate⟩⟩ | ⟨hstays, -, -⟩
  · rw [dwell, hstate]
    exact RuleState.dwell_start _ _
  · rw [dwell, hstate]
    exact RuleState.dwell_enter _ _ _
  · exact absurd henters hstays

/-! ### Whole histories -/

variable {operations later : List (Operation σ)}

theorem inOrder_after (h : m.InOrder) (hforward : m.Throughout MovesForward operations) :
    (m.after operations).InOrder := by
  induction operations generalizing m with
  | nil => exact h
  | cons operation operations ih => exact ih (inOrder_apply h hforward.1) hforward.2

/-- While no state is entered, the state stays and the clock goes on. -/
theorem state_of_stays (hforward : m.Throughout MovesForward later)
    (hstays : m.Throughout Stays later) :
    (m.after later).state = m.state ∧ m.now.nanoseconds ≤ (m.after later).now.nanoseconds := by
  induction later generalizing m with
  | nil => exact ⟨rfl, Int.le_refl _⟩
  | cons operation later ih =>
    obtain ⟨hstate, hnow⟩ := ih hforward.2 hstays.2
    rcases forward_cases hforward.1 with ⟨henters, -⟩ | ⟨-, hkept, hle⟩
    · exact absurd henters hstays.1
    · exact ⟨hstate.trans hkept, Int.le_trans hle hnow⟩

omit [Sink σ] in
theorem inOrder_of_load {p : Program} {sink : σ} {now : Moment} {config : Config} (h : load p sink now config = .ok m) :
    m.InOrder ∧ m.dwell = 0 := by
  obtain ⟨-, rfl⟩ := admits_of_load h
  exact ⟨⟨Int.le_refl _, UInt32.zero_le⟩, RuleState.dwell_start _ _⟩

/-! ### What a program sees of it -/

/-- At this time, the time in the state is the difference of the two times, and nothing wraps. -/
structure CountsDwell (m : Machine σ) (now : Moment) : Prop where
  enteredAt_le : m.state.enteredAt ≤ m.state.timestamp now
  dwell_eq : (m.state.dwell now).toNat = (m.state.timestamp now).toNat - m.state.enteredAt.toNat

/-- Wherever the run stands, the time in the state is right, and is what a program loads as such that has room for it. -/
structure LoadsDwell (m : Machine σ) (trigger : Option Trigger) (clock : Clock) : Prop where
  counts : ∀ s ∈ m.program.turns m.state trigger m.sink clock m.config, m.CountsDwell (clock.reading s.context.pc)
  loaded : ∀ s ∈ m.program.turns m.state trigger m.sink clock m.config, ∀ length,
    Instruction.decode m.program.bytes s.context.pc = .ok (.loadDwell, length) →
    s.context.stack.depth < s.context.stack.limit →
    ∃ s', s.turn m.program ⟨m.state, clock⟩ = (s', none) ∧
      s'.context.stack.values = .u32 (m.state.dwell (clock.reading s.context.pc)) :: s.context.stack.values

omit [Sink σ] in
theorem InOrder.countsDwell (h : m.InOrder) {now : Moment} (hnow : m.now.nanoseconds ≤ now.nanoseconds) :
    m.CountsDwell now := by
  have hle : m.state.enteredAt ≤ m.state.timestamp now := UInt32.le_trans h.enteredAt_le (Moment.secondsSince_le hnow)
  exact ⟨hle, RuleState.toNat_dwell hle⟩

theorem InOrder.loadsDwell (h : m.InOrder) (trigger : Option Trigger) {clock : Clock} (hclock : clock.Forward m.now) :
    m.LoadsDwell trigger clock := by
  refine ⟨fun s _ => h.countsDwell (hclock.start_le _), ?_⟩
  intro s _ length hdecode hroom
  have hpush :=
    @Context.push_of_room (s.begin .loadDwell).context (.u32 (m.state.dwell (clock.reading s.context.pc))) hroom
  have hperform : (s.begin .loadDwell).context.perform ⟨m.state, clock⟩ .loadDwell = .ok (_, .advance) :=
    Except.bind_eq_ok_iff.2 ⟨_, hpush, rfl⟩
  exact ⟨_, Progress.turn_eq_iff.2 (.moved hdecode hperform rfl (Instruction.decode_bounds hdecode).2), rfl⟩

/-- From the one machine to the other the clock has gone on, and the time in the state does not fall, whenever it is asked for since. -/
structure KeepsDwell (m m' : Machine σ) : Prop where
  now_le : m.now.nanoseconds ≤ m'.now.nanoseconds
  dwell_le : ∀ now late : Moment, m.now.nanoseconds ≤ now.nanoseconds → now.nanoseconds ≤ late.nanoseconds →
    m.state.dwell now ≤ m'.state.dwell late

theorem InOrder.keepsDwell (h : m.InOrder) {later : List (Operation σ)} (hforward : m.Throughout MovesForward later)
    (hstays : m.Throughout Stays later) : m.KeepsDwell (m.after later) := by
  obtain ⟨hstate, hle⟩ := state_of_stays hforward hstays
  refine ⟨hle, ?_⟩
  intro now late hnow hlate
  rw [hstate]
  exact RuleState.dwell_le (h.countsDwell hnow).enteredAt_le hlate

/-- The last of these operations entered a state; before the first, loading did. -/
def JustEntered (m : Machine σ) (operations : List (Operation σ)) : Prop :=
  operations = [] ∨ ∃ before operation, operations = before ++ [operation] ∧ (m.after before).Enters operation

/-- In a history from loading on, without restoring and with a clock that never goes back, the time in the state never wraps, at whatever time it is asked for next and wherever the next run stands. It is zero when a state was just entered, does not fall until one is entered again, and is the time since then in whole seconds or a second more, while 32 bits hold the time since the origin. -/
theorem dwell_of_forward {p : Program} {sink : σ} {now : Moment} {config : Config}
    (hload : load p sink now config = .ok m) (operations later : List (Operation σ))
    (hforward : m.Throughout MovesForward (operations ++ later)) :
    (∀ now, (m.after operations).now.nanoseconds ≤ now.nanoseconds → (m.after operations).CountsDwell now) ∧
      (∀ trigger clock, clock.Forward (m.after operations).now → (m.after operations).LoadsDwell trigger clock) ∧
      (m.JustEntered operations → (m.after operations).dwell = 0) ∧
      ((m.after operations).Throughout Stays later → (m.after operations).KeepsDwell (m.after (operations ++ later))) ∧
      (m.JustEntered operations → (m.after operations).Throughout Stays later →
        ∀ now, (m.after operations).now.nanoseconds ≤ now.nanoseconds →
          (m.after (operations ++ later)).state.created.secondsTo now < 4294967296 →
          (((m.after (operations ++ later)).state.dwell now).toNat : Int) = (m.after operations).now.secondsTo now ∨
            (((m.after (operations ++ later)).state.dwell now).toNat : Int) =
              (m.after operations).now.secondsTo now + 1) := by
  obtain ⟨hbegun, hahead⟩ := throughout_append.1 hforward
  obtain ⟨hstart, hzero⟩ := inOrder_of_load hload
  have horder := inOrder_after hstart hbegun
  rw [after_append]
  have hentered : m.JustEntered operations → (m.after operations).dwell = 0 := by
    intro h
    rcases h with rfl | ⟨before, operation, rfl, henters⟩
    · exact hzero
    · rw [after_concat]
      exact dwell_of_enters (throughout_append.1 hbegun).2.1 henters
  refine ⟨fun now => horder.countsDwell, fun trigger clock => horder.loadsDwell trigger, hentered,
    horder.keepsDwell hahead, ?_⟩
  intro hjust hstays now hnow hnear
  have hat := RuleState.enteredAt_eq_of_dwell (hentered hjust)
  have hcounts := (horder.countsDwell hnow).dwell_eq
  rw [(state_of_stays hahead hstays).1] at hnear ⊢
  rw [hcounts, hat]
  exact Moment.secondsSince_sub horder.created_le hnow hnear

/-- Nine tenths of a second after loading. -/
def tenthsLater : Moment := { Sample.now with nanosecond := 900000007, time_valid := by decide }

/-- Two tenths of a second after that. -/
def nextSecond : Moment := { Sample.now with second := 9, nanosecond := 100000007, time_valid := by decide }

/-- A run that is at its second instruction only then. -/
def slowRun : Operation LoggingSink := .run none ⟨fun pc => if pc < 7 then Sample.now else tenthsLater⟩

theorem now_slowRun : (fresh.after [slowRun]).now = tenthsLater := by
  rw [slowRun, after_cons, after, List.foldl_nil, apply_run, now_run]
  cbv

/-- No whole second has passed since the change of state, but one has begun since the origin. -/
theorem dwell_of_forward_rounded :
    load Sample.change LoggingSink.mk Sample.now {} = .ok fresh ∧
      fresh.Throughout MovesForward ([slowRun] ++ [.setClock nextSecond]) ∧ fresh.JustEntered [slowRun] ∧
      (((fresh.after ([slowRun] ++ [.setClock nextSecond])).state.dwell nextSecond).toNat : Int) =
        (fresh.after [slowRun]).now.secondsTo nextSecond + 1 := by
  have hload : load Sample.change LoggingSink.mk Sample.now {} = .ok fresh := by rfl
  have hlater : (fresh.after [slowRun]).now.nanoseconds ≤ nextSecond.nanoseconds := by
    rw [now_slowRun]
    decide
  have hforward : fresh.Throughout MovesForward ([slowRun] ++ [.setClock nextSecond]) := by
    refine ⟨⟨?_, ?_⟩, hlater, trivial⟩
    · intro pc
      dsimp only
      split <;> decide
    · intro a b hle
      dsimp only
      split <;> split <;> first | omega | decide
  have hjust : fresh.JustEntered [slowRun] := by
    refine .inr ⟨[], _, rfl, enters_run_iff.2 ⟨7, ?_⟩⟩
    cbv
  have hstate : (fresh.after [slowRun]).state = fresh.state.enter 7 tenthsLater := by
    rw [slowRun, after_cons, after, List.foldl_nil, apply_run]
    cbv
  have hcounts := (dwell_of_forward hload _ _ hforward).2.2.2.2 hjust ⟨id, trivial⟩ nextSecond hlater
  rw [after_append, (state_of_stays (throughout_append.1 hforward).2 ⟨id, trivial⟩).1, hstate, now_slowRun] at hcounts
  refine ⟨hload, hforward, hjust, ?_⟩
  rw [after_append, (state_of_stays (throughout_append.1 hforward).2 ⟨id, trivial⟩).1, hstate, now_slowRun]
  exact (hcounts (by decide)).resolve_left (by decide)

end Machine

end RuleMachine
