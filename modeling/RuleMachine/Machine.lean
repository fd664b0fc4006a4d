import RuleMachine.Run.Basic

/-!
# Machines

A program that is loaded, the state it is in, the sink it writes to and the time that its clock shows. Loading starts the state at that time; replacing the program starts it again and keeps its origin. The clock may go on during a run, which leaves it at the time at which it ends. A program that is refused changes nothing.
-/

namespace RuleMachine

structure Machine (σ : Type) where
  program : Program
  state : RuleState
  sink : σ
  now : Moment
  config : Config

namespace Machine

variable {σ : Type}

def accept (config : Config) (p : Program) : Except Fault Unit :=
  if config.validateOnLoad then
    match p.validate with
    | .ok () => .ok ()
    | .error e => .error (.malformed e)
  else .ok ()

def load (p : Program) (sink : σ) (now : Moment) (config : Config) : Except Fault (Machine σ) := do
  accept config p
  return ⟨p, .start config.initialState now, sink, now, config⟩

/-- Installs another program, which starts from the initial state. -/
def replace (m : Machine σ) (p : Program) : Except Fault (Machine σ × List Event) := do
  accept m.config p
  let state := m.state.enter m.config.initialState m.now
  return ({ m with program := p, state }, [.replaced state.current p.size])

def restore (m : Machine σ) (state : RuleState) : Machine σ := { m with state }

def setClock (m : Machine σ) (now : Moment) : Machine σ := { m with now }

/-- Moves the clock by a number of nanoseconds. -/
def advanceClock (m : Machine σ) (nanoseconds : Int) : Machine σ := { m with now := m.now.advance nanoseconds }

variable [Sink σ]

/-- Runs the program once, under a clock that shows this meanwhile or else stands still, and keeps the state, the sink and the time that the run leaves. -/
def run (m : Machine σ) (trigger : Option Trigger) (clock : Clock := .still m.now) :
    Machine σ × Except Fault Outcome × Array Event :=
  let outcome := m.program.runToEnd ⟨m.state, clock⟩ trigger m.sink m.config.effectiveStackLimit
  let report := Report.ofEnding m.state clock outcome
  ({ m with state := report.state, sink := report.sink, now := clock.reading outcome.1.context.pc }, report.result,
    report.log)

def write (m : Machine σ) (endpoint : UInt32) (v : Value) : Machine σ × UInt8 × List Event :=
  let reply := Sink.write m.sink endpoint v
  ({ m with sink := reply.sink }, reply.code, reply.events)

end Machine

end RuleMachine
