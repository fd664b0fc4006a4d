import RuleMachine.Event

/-!
# Sinks

Where writes go. A sink is a state with one operation: given an endpoint and a value it answers with a code for the program, its next state and what it reports. The machine treats codes as opaque, so any such operation is a sink; here are one that logs, one that answers from a list and one that keeps a record of another.
-/

namespace RuleMachine

structure SinkReply (σ : Type) where
  code : UInt8
  sink : σ
  events : List Event := []

class Sink (σ : Type) where
  write : σ → UInt32 → Value → SinkReply σ

/-- Reports every write and accepts exactly the arithmetic kinds. -/
structure LoggingSink where
  deriving DecidableEq

instance : Sink LoggingSink where
  write sink endpoint value :=
    { code := if value.kind.isArithmetic then 0 else 1, sink, events := [.endpointWrite endpoint value] }

/-- Answers with the codes of a list in turn, from its start again when it is used up; an empty list stands for zeros. -/
structure ScriptedSink where
  codes : Array UInt8
  next : Nat := 0

instance : Sink ScriptedSink where
  write sink _ _ :=
    { code := sink.codes.getD (sink.next % sink.codes.size) 0, sink := { sink with next := sink.next + 1 } }

structure Write where
  endpoint : UInt32
  value : Value
  code : UInt8
  deriving DecidableEq

/-- A sink with the writes it has answered, the latest first. -/
structure Recorded (σ : Type) where
  sink : σ
  record : List Write := []

instance {σ : Type} [Sink σ] : Sink (Recorded σ) where
  write recorded endpoint value :=
    let reply := Sink.write recorded.sink endpoint value
    { reply with sink := ⟨reply.sink, ⟨endpoint, value, reply.code⟩ :: recorded.record⟩ }

/-- The writes in the order in which they were made. -/
def Recorded.writes {σ : Type} (recorded : Recorded σ) : List Write := recorded.record.reverse

end RuleMachine
