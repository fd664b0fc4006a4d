import Mathlib.Data.List.Induction
import RuleMachine.Machine
import RuleMachine.Proofs.Run.Ending

/-!
# What is left of a history

A host loads programs, runs them, moves the clock, replaces and restores, in any order and as often as it likes, and any of it may fail. Few of these operations have an effect on the program and its state, and each effect is known from the machine before it. What is left of a history is then read off its effects: the program of the last one that installs a program, and the state of the last one, with its times counted from the last origin. The time is the one that was last told, set or come to.
-/

namespace RuleMachine

/-- What a host does with the machine it holds. -/
inductive Operation (σ : Type) where
  /-- Loads a machine in place of the one that is held, which stays if the program is refused. -/
  | load (p : Program) (sink : σ) (now : Moment) (config : Config)
  /-- Runs the program while the clock shows this. -/
  | run (trigger : Option Trigger) (clock : Clock)
  | setClock (now : Moment)
  | advanceClock (nanoseconds : Int)
  | replace (p : Program)
  | restore (state : RuleState)
  | write (endpoint : UInt32) (v : Value)

inductive Reply where
  | done
  | refused (f : Fault)
  | ran (result : Except Fault Outcome)
  | answered (code : UInt8)

/-- What an operation changes of the program and its state. -/
inductive Effect where
  | loaded (p : Program) (initial : UInt32) (now : Moment)
  | restored (state : RuleState)
  | replaced (p : Program) (initial : UInt32) (now : Moment)
  | changed (target : UInt32) (now : Moment)

namespace Effect

/-- The program that is installed. -/
def program? : Effect → Option Program
  | loaded p _ _ | replaced p _ _ => some p
  | restored _ | changed _ _ => none

/-- The origin that times count from afterwards, unless it is kept. -/
def origin? : Effect → Option Moment
  | loaded _ _ now => some now
  | restored state => some state.created
  | replaced _ _ _ | changed _ _ => none

/-- The state afterwards, where times counted from `created` before. -/
def state (created : Moment) : Effect → RuleState
  | loaded _ initial now => ⟨initial, 0, now⟩
  | restored state => state
  | replaced _ initial now => ⟨initial, now.secondsSince created, created⟩
  | changed target now => ⟨target, now.secondsSince created, created⟩

theorem created_state (e : Effect) (created : Moment) : (e.state created).created = e.origin?.getD created := by
  cases e <;> rfl

/-- Only an effect that keeps the origin asks for it. -/
theorem state_origin (e : Effect) (created : Moment) : e.state (e.origin?.getD created) = e.state created := by
  cases e <;> rfl

/-- What a run changes that comes to this ending at this time, or to none. -/
def ofEnding? (now : Moment) : Option Ending → Option Effect
  | some (.change target) => some (changed target now)
  | _ => none

/-- The last of what is picked from the effects, or what there was before them. -/
def last {α : Type} (pick : Effect → Option α) (effects : List Effect) (before : α) : α :=
  (effects.filterMap pick).getLast?.getD before

theorem last_append {α : Type} (pick : Effect → Option α) (effects : List Effect) (e : Option Effect) (before : α) :
    last pick (effects ++ e.toList) before = (e.bind pick).getD (last pick effects before) := by
  rcases e with _ | e
  · simp [last]
  · cases hpick : pick e <;> simp [last, hpick]

end Effect

/-- The settings let the program be installed: its header is right, or is not looked at. -/
def Config.Admits (config : Config) (p : Program) : Prop := config.validateOnLoad = true → p.validate = .ok ()

instance (config : Config) (p : Program) : Decidable (config.Admits p) := inferInstanceAs (Decidable (_ → _))

namespace Machine

variable {σ : Type}

theorem accept_eq_ok_iff {config : Config} {p : Program} : accept config p = .ok () ↔ config.Admits p := by
  unfold accept Config.Admits
  cases config.validateOnLoad <;> rcases p.validate with e | ⟨⟩ <;> simp

theorem accept_of_not_admits {config : Config} {p : Program} (h : ¬ config.Admits p) :
    ∃ f, accept config p = .error f := by
  rw [← accept_eq_ok_iff] at h
  rcases haccept : accept config p with f | ⟨⟩
  · exact ⟨f, rfl⟩
  · exact absurd haccept h

variable [Sink σ]

def apply (m : Machine σ) : Operation σ → Machine σ × Reply
  | .load p sink now config =>
    match load p sink now config with
    | .ok m' => (m', .done)
    | .error f => (m, .refused f)
  | .run trigger clock => ((m.run trigger clock).1, .ran (m.run trigger clock).2.1)
  | .setClock now => (m.setClock now, .done)
  | .advanceClock nanoseconds => (m.advanceClock nanoseconds, .done)
  | .replace p =>
    match m.replace p with
    | .ok (m', _) => (m', .done)
    | .error f => (m, .refused f)
  | .restore state => (m.restore state, .done)
  | .write endpoint v => ((m.write endpoint v).1, .answered (m.write endpoint v).2.1)

/-- The machine that is held after these operations. -/
def after (m : Machine σ) (operations : List (Operation σ)) : Machine σ :=
  operations.foldl (fun m operation => (m.apply operation).1) m

/-- The ending of a run, if it comes to one. -/
def ending? (m : Machine σ) (trigger : Option Trigger) (clock : Clock) : Option Ending :=
  m.program.ending? m.state trigger m.sink clock m.config

/-- The time at which a run ends. -/
def endTime (m : Machine σ) (trigger : Option Trigger) (clock : Clock) : Moment :=
  clock.reading (m.program.stop m.state trigger m.sink clock m.config)

/-- The effect that an operation has, if it has one. -/
def effect? (m : Machine σ) : Operation σ → Option Effect
  | .load p _ now config => if config.Admits p then some (.loaded p config.initialState now) else none
  | .run trigger clock => Effect.ofEnding? (m.endTime trigger clock) (m.ending? trigger clock)
  | .replace p => if m.config.Admits p then some (.replaced p m.config.initialState m.now) else none
  | .restore state => some (.restored state)
  | .setClock _ | .advanceClock _ | .write _ _ => none

/-- The time that an operation leaves the clock at, unless it has nothing to do with the clock. -/
def time? (m : Machine σ) : Operation σ → Option Moment
  | .load p _ now config => if config.Admits p then some now else none
  | .run trigger clock => some (m.endTime trigger clock)
  | .setClock now => some now
  | .advanceClock nanoseconds => some (m.now.advance nanoseconds)
  | .replace _ | .restore _ | .write _ _ => none

/-- What is picked from operations that are carried out one after another. -/
def pick {α : Type} (f : Machine σ → Operation σ → Option α) (m : Machine σ) : List (Operation σ) → List α
  | [] => []
  | operation :: operations => (f m operation).toList ++ (m.apply operation).1.pick f operations

def effects (m : Machine σ) : List (Operation σ) → List Effect := m.pick effect?

def times (m : Machine σ) : List (Operation σ) → List Moment := m.pick time?

/-! ### One operation -/

/-- What loading does, and when. -/
theorem apply_load (m : Machine σ) (p : Program) (sink : σ) (now : Moment) (config : Config) :
    config.Admits p ∧
        m.apply (.load p sink now config) = (⟨p, .start config.initialState now, sink, now, config⟩, .done) ∨
      ¬ config.Admits p ∧ ∃ f, m.apply (.load p sink now config) = (m, .refused f) := by
  by_cases hadmits : config.Admits p
  · refine .inl ⟨hadmits, ?_⟩
    simp only [apply, load, accept_eq_ok_iff.2 hadmits]
    rfl
  · obtain ⟨f, haccept⟩ := accept_of_not_admits hadmits
    refine .inr ⟨hadmits, f, ?_⟩
    simp only [apply, load, haccept]
    rfl

theorem apply_replace (m : Machine σ) (p : Program) :
    m.config.Admits p ∧
        m.apply (.replace p) =
          ({ m with program := p, state := m.state.enter m.config.initialState m.now }, .done) ∨
      ¬ m.config.Admits p ∧ ∃ f, m.apply (.replace p) = (m, .refused f) := by
  by_cases hadmits : m.config.Admits p
  · refine .inl ⟨hadmits, ?_⟩
    simp only [apply, replace, accept_eq_ok_iff.2 hadmits]
    rfl
  · obtain ⟨f, haccept⟩ := accept_of_not_admits hadmits
    refine .inr ⟨hadmits, f, ?_⟩
    simp only [apply, replace, haccept]
    rfl

theorem reply_load (m : Machine σ) (p : Program) (sink : σ) (now : Moment) (config : Config) :
    (m.apply (.load p sink now config)).2 = .done ↔ config.Admits p := by
  rcases m.apply_load p sink now config with ⟨hadmits, happly⟩ | ⟨hadmits, f, happly⟩ <;> simp [happly, hadmits]

theorem reply_replace {m : Machine σ} {p : Program} : (m.apply (.replace p)).2 = .done ↔ m.config.Admits p := by
  rcases m.apply_replace p with ⟨hadmits, happly⟩ | ⟨hadmits, f, happly⟩ <;> simp [happly, hadmits]

variable (trigger : Option Trigger) (clock : Clock)

theorem apply_run (m : Machine σ) : (m.apply (.run trigger clock)).1 = (m.run trigger clock).1 := rfl

theorem state_run (m : Machine σ) :
    (m.run trigger clock).1.state = Ending.leaves m.state (m.endTime trigger clock) (m.ending? trigger clock) :=
  Program.state_execute

theorem now_run (m : Machine σ) : (m.run trigger clock).1.now = m.endTime trigger clock :=
  congrArg clock.reading Program.pc_runToEnd

/-- An operation installs the program and leaves the state of its effect, and changes neither without one. -/
theorem apply_effect (m : Machine σ) (operation : Operation σ) :
    (m.apply operation).1.program = ((m.effect? operation).bind Effect.program?).getD m.program ∧
      (m.apply operation).1.state = ((m.effect? operation).map (Effect.state m.state.created)).getD m.state := by
  cases operation with
  | load p sink now config =>
    rcases m.apply_load p sink now config with ⟨hadmits, happly⟩ | ⟨hadmits, f, happly⟩
    · rw [happly, effect?, if_pos hadmits]
      exact ⟨rfl, rfl⟩
    · rw [happly, effect?, if_neg hadmits]
      exact ⟨rfl, rfl⟩
  | replace p =>
    rcases m.apply_replace p with ⟨hadmits, happly⟩ | ⟨hadmits, f, happly⟩
    · rw [happly, effect?, if_pos hadmits]
      exact ⟨rfl, rfl⟩
    · rw [happly, effect?, if_neg hadmits]
      exact ⟨rfl, rfl⟩
  | run trigger clock =>
    simp only [apply, state_run, effect?]
    rcases m.ending? trigger clock with _ | ⟨⟩ | target <;> exact ⟨rfl, rfl⟩
  | advanceClock nanoseconds => simp [apply, advanceClock, effect?]
  | _ => exact ⟨rfl, rfl⟩

theorem apply_time (m : Machine σ) (operation : Operation σ) :
    (m.apply operation).1.now = (m.time? operation).getD m.now := by
  cases operation with
  | load p sink now config =>
    rcases m.apply_load p sink now config with ⟨hadmits, happly⟩ | ⟨hadmits, f, happly⟩
    · rw [happly, time?, if_pos hadmits]
      rfl
    · rw [happly, time?, if_neg hadmits]
      rfl
  | replace p =>
    rcases m.apply_replace p with ⟨-, happly⟩ | ⟨-, f, happly⟩ <;> rw [happly] <;> rfl
  | run trigger clock => exact m.now_run trigger clock
  | _ => rfl

/-! ### Whole histories -/

variable (m : Machine σ) (operations : List (Operation σ)) (operation : Operation σ)

@[simp] theorem after_concat : m.after (operations ++ [operation]) = ((m.after operations).apply operation).1 := by
  simp [after]

theorem after_cons : m.after (operation :: operations) = (m.apply operation).1.after operations := rfl

theorem pick_concat {α : Type} (f : Machine σ → Operation σ → Option α) :
    m.pick f (operations ++ [operation]) = m.pick f operations ++ (f (m.after operations) operation).toList := by
  induction operations generalizing m with
  | nil => simp [pick, after]
  | cons first rest ih =>
    rw [List.cons_append, pick, pick, ih, List.append_assoc]
    rfl

@[simp] theorem effects_concat :
    m.effects (operations ++ [operation]) = m.effects operations ++ ((m.after operations).effect? operation).toList :=
  m.pick_concat operations operation effect?

/-- The clock shows the last time that it was left at. -/
theorem now_after : (m.after operations).now = (m.times operations).getLast?.getD m.now := by
  induction operations using List.reverseRecOn with
  | nil => rfl
  | append_singleton operations operation ih =>
    rw [after_concat, apply_time, times, pick_concat]
    cases (m.after operations).time? operation with
    | none => simpa [times] using ih
    | some now => simp

theorem program_after : (m.after operations).program = Effect.last Effect.program? (m.effects operations) m.program := by
  induction operations using List.reverseRecOn with
  | nil => rfl
  | append_singleton operations operation ih =>
    rw [after_concat, effects_concat, (apply_effect _ _).1, Effect.last_append, ih]

/-- Times count from the last origin. -/
theorem created_after :
    (m.after operations).state.created = Effect.last Effect.origin? (m.effects operations) m.state.created := by
  induction operations using List.reverseRecOn with
  | nil => rfl
  | append_singleton operations operation ih =>
    rw [after_concat, effects_concat, (apply_effect _ _).2, Effect.last_append, ← ih]
    cases (m.after operations).effect? operation with
    | none => rfl
    | some e => exact e.created_state _

/-- The last effect decides the state. -/
theorem state_after :
    (m.after operations).state =
      ((m.effects operations).getLast?.map
        (Effect.state (Effect.last Effect.origin? (m.effects operations) m.state.created))).getD m.state := by
  induction operations using List.reverseRecOn with
  | nil => rfl
  | append_singleton operations operation ih =>
    rw [after_concat, effects_concat, (apply_effect _ _).2, Effect.last_append]
    cases (m.after operations).effect? operation with
    | none => simpa using ih
    | some e =>
      rw [created_after, Option.toList_some, List.getLast?_concat]
      exact (e.state_origin _).symm

variable {operation}

theorem after_concat_of_no_effect (h : (m.after operations).effect? operation = none) :
    (m.after (operations ++ [operation])).program = (m.after operations).program ∧
      (m.after (operations ++ [operation])).state = (m.after operations).state := by
  rw [after_concat, (apply_effect _ _).1, (apply_effect _ _).2, h]
  exact ⟨rfl, rfl⟩

/-- The last effects of a history alone decide which program is left and in which state; whatever has no effect leaves both as they are. The clock is at the last time that it was left at. A run reports the ending it comes to, from the state before it, and fails without one; a program is refused if its header is checked and is wrong. -/
theorem after_history (m : Machine σ) (operations : List (Operation σ)) :
    (m.after operations).program = Effect.last Effect.program? (m.effects operations) m.program ∧
      (m.after operations).state =
        ((m.effects operations).getLast?.map
          (Effect.state (Effect.last Effect.origin? (m.effects operations) m.state.created))).getD m.state ∧
      (m.after operations).now = (m.times operations).getLast?.getD m.now ∧
      (∀ operation, (m.after operations).effect? operation = none →
        (m.after (operations ++ [operation])).program = (m.after operations).program ∧
          (m.after (operations ++ [operation])).state = (m.after operations).state) ∧
      (∀ trigger clock, ∃ result, ((m.after operations).apply (.run trigger clock)).2 = .ran result ∧
        result.toOption =
          ((m.after operations).ending? trigger clock).map (Ending.outcome (m.after operations).state.current)) ∧
      (∀ p, ((m.after operations).apply (.replace p)).2 = .done ↔ (m.after operations).config.Admits p) ∧
      ∀ p sink now config, ((m.after operations).apply (.load p sink now config)).2 = .done ↔ config.Admits p := by
  refine ⟨m.program_after operations, m.state_after operations, m.now_after operations, ?_, ?_, ?_, ?_⟩
  · intro operation h
    exact m.after_concat_of_no_effect operations h
  · intro trigger clock
    exact ⟨_, rfl, Program.toOption_result⟩
  · intro p
    exact reply_replace
  · intro p sink now config
    exact (m.after operations).reply_load p sink now config

end Machine

end RuleMachine
