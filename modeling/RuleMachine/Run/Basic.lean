import RuleMachine.Config
import RuleMachine.Instruction.Decoding
import RuleMachine.Run.Perform
import RuleMachine.Sink

/-!
# Runs

One run of a program: the entry is read from the header, then instructions are decoded and performed one after another until one ends the run or something fails. Skips only lead forward, so every turn moves on in the code and a run ends. The state changes only when the run ends in a change; writes that were made stay made whatever happens afterwards.
-/

namespace RuleMachine

inductive Ending where
  | stay
  | change (state : UInt32)
  deriving DecidableEq

/-- A run between two instructions: its context, the sink as it is now and the events so far. -/
structure Progress (σ : Type) where
  context : Context
  sink : σ
  log : Array Event

/-- A program cannot go on beyond its end, though it may come to stand there. -/
def Program.checkPc (p : Program) (pc : Nat) : Except Fault Unit :=
  if pc ≤ p.size then .ok () else .error (.pcOutOfRange pc p.size)

namespace Progress

variable {σ : Type}

/-- The instruction at the current offset is decoded and about to be performed. -/
def begin (s : Progress σ) (i : Instruction) : Progress σ :=
  { s with
    context := { s.context with opcode := i.opcode }
    log := s.log.push (.step s.context.pc i s.context.stack.depth) }

def goTo (s : Progress σ) (p : Program) (c : Context) (pc : Nat) : Progress σ × Option (Except Fault Ending) :=
  match p.checkPc pc with
  | .ok () => ({ s with context := { c with pc } }, none)
  | .error f => (s, some (.error f))

theorem goTo_eq_none {p : Program} {s s' : Progress σ} {c : Context} {pc : Nat} (h : s.goTo p c pc = (s', none)) :
    s'.context.pc = pc ∧ pc ≤ p.size := by
  unfold goTo Program.checkPc at h
  split at h
  · next hok =>
    split at hok
    · next hle =>
      cases h
      exact ⟨rfl, hle⟩
    · cases hok
  · cases h

variable [Sink σ]

def write (s : Progress σ) (endpoint : UInt32) (v : Value) : Progress σ × Except Fault Context :=
  let reply := Sink.write s.sink endpoint v
  ({ s with sink := reply.sink, log := (s.log ++ reply.events).push (.written endpoint v reply.code) },
    s.context.push (.u8 reply.code))

/-- One turn: the instruction at the current offset, and how the run ends if it ends with it. -/
def turn (p : Program) (around : Surroundings) (s : Progress σ) : Progress σ × Option (Except Fault Ending) :=
  match Instruction.decode p.bytes s.context.pc with
  | .error e => (s, some (.error (.malformed e)))
  | .ok (i, length) =>
    let after := s.context.pc + length
    let s := s.begin i
    match s.context.perform around i with
    | .error f => (s, some (.error f))
    | .ok (c, .advance) => s.goTo p c after
    | .ok (c, .skip bytes) => s.goTo p c (after + bytes.toNat)
    | .ok (c, .write endpoint v) =>
      match { s with context := c }.write endpoint v with
      | (s, .ok c) => s.goTo p c after
      | (s, .error f) => (s, some (.error f))
    | .ok (_, .stay) => (s, some (.ok .stay))
    | .ok (_, .change state) => (s, some (.ok (.change state)))

/-- A turn that does not end the run moves it on, no further than the end of the program. -/
theorem turn_advances {p : Program} {around : Surroundings} {s s' : Progress σ} (h : s.turn p around = (s', none)) :
    s.context.pc < s'.context.pc ∧ s'.context.pc ≤ p.size := by
  unfold turn at h
  split at h
  · cases h
  · next i length hdecode =>
    have := (Instruction.decode_bounds hdecode).1
    dsimp only at h
    split at h
    · cases h
    · obtain ⟨hpc, hle⟩ := goTo_eq_none h
      omega
    · obtain ⟨hpc, hle⟩ := goTo_eq_none h
      omega
    · split at h
      · obtain ⟨hpc, hle⟩ := goTo_eq_none h
        omega
      · cases h
    · cases h
    · cases h

def finish (p : Program) (around : Surroundings) (s : Progress σ) : Progress σ × Except Fault Ending :=
  match _hturn : s.turn p around with
  | (s', some ending) => (s', ending)
  | (s', none) => finish p around s'
termination_by p.size - s.context.pc
decreasing_by
  have := turn_advances _hturn
  omega

def enter (p : Program) (entry : Entry) (state : UInt32) (s : Progress σ) : Progress σ × Except Fault Unit :=
  match p.entryOffset entry with
  | .error e => (s, .error (.malformed e))
  | .ok offset =>
    let s := { s with log := s.log.push (.running offset entry state) }
    match p.checkPc offset.toNat with
    | .error f => (s, .error f)
    | .ok () => ({ s with context := { s.context with pc := offset.toNat } }, .ok ())

end Progress

structure Report (σ : Type) where
  result : Except Fault Outcome
  state : RuleState
  sink : σ
  log : Array Event

/-- What is left behind by a run that ends so: only a change of state touches the state, which is entered at the time that the clock shows in the end. -/
def Report.ofEnding {σ : Type} (state : RuleState) (clock : Clock) : Progress σ × Except Fault Ending → Report σ
  | (s, .error f) => ⟨.error f, state, s.sink, s.log.push (.failed f s.context.pc s.context.opcode)⟩
  | (s, .ok .stay) => ⟨.ok (.stayed state.current), state, s.sink, s.log⟩
  | (s, .ok (.change target)) =>
    ⟨.ok (.changed state.current target), state.enter target (clock.reading s.context.pc), s.sink,
      s.log.push (.stateChanged state.current target)⟩

/-- The kind of run that a trigger, or the lack of one, asks for. -/
def Entry.ofTrigger (trigger : Option Trigger) : Entry := if trigger.isSome then .packet else .periodic

namespace Program

variable {σ : Type} [Sink σ]

def runToEnd (p : Program) (around : Surroundings) (trigger : Option Trigger) (sink : σ) (stackLimit : Nat) :
    Progress σ × Except Fault Ending :=
  match Progress.enter p (.ofTrigger trigger) around.state.current ⟨.start trigger stackLimit, sink, #[]⟩ with
  | (s, .error f) => (s, .error f)
  | (s, .ok ()) => s.finish p around

/-- Runs the program once, for a packet if there is a trigger and periodically if there is none. -/
def execute (p : Program) (state : RuleState) (trigger : Option Trigger) (sink : σ) (clock : Clock) (config : Config) :
    Report σ :=
  .ofEnding state clock (p.runToEnd ⟨state, clock⟩ trigger sink config.effectiveStackLimit)

end Program

end RuleMachine
