import RuleMachine.Json.Exchange
import RuleMachine.Machine
import RuleMachine.Program.Assembly
import RuleMachine.Program.Listing
import RuleMachine.Proofs.Calendar.DayCount
import RuleMachine.Proofs.Text.Digits
import RuleMachine.Proofs.Text.Line
import RuleMachine.Proofs.Calendar.Written
import RuleMachine.Proofs.Json.RoundTrip
import RuleMachine.Proofs.Datetime.Elapsed
import RuleMachine.Proofs.Datetime.Construction
import RuleMachine.Proofs.Datetime.Mask
import RuleMachine.Proofs.Datetime.Fieldwise
import RuleMachine.Proofs.Datetime.Order
import RuleMachine.Proofs.Datetime.Wrapping
import RuleMachine.Proofs.Reader
import RuleMachine.Proofs.Reader.Sequence
import RuleMachine.Proofs.Instruction.RoundTrip
import RuleMachine.Proofs.Instruction.Writing
import RuleMachine.Proofs.Instruction.Refusal
import RuleMachine.Proofs.Instruction.Verdicts
import RuleMachine.Proofs.Instruction.SwitchTable
import RuleMachine.Proofs.Program.Header
import RuleMachine.Proofs.Assembly.Layout
import RuleMachine.Proofs.Assembly.Built
import RuleMachine.Proofs.Assembly.Failure
import RuleMachine.Proofs.Assembly.Switch
import RuleMachine.Proofs.Assembly.Comparison
import RuleMachine.Proofs.Run.Perform
import RuleMachine.Proofs.Run.Trace
import RuleMachine.Proofs.Run.Depth
import RuleMachine.Proofs.Run.Record
import RuleMachine.Proofs.Run.OnePass
import RuleMachine.Proofs.Run.Locality
import RuleMachine.Proofs.Run.Writes
import RuleMachine.Proofs.Run.Ending
import RuleMachine.Proofs.Run.Clock
import RuleMachine.Proofs.Run.Log
import RuleMachine.Proofs.Stack.Operations
import RuleMachine.Proofs.Stack.Slots
import RuleMachine.Proofs.Stack.Bounded
import RuleMachine.Proofs.Stack.Rotation
import RuleMachine.Proofs.Value.Payload
import RuleMachine.Proofs.Value.Conversion
import RuleMachine.Proofs.Operator.Kinds
import RuleMachine.Proofs.Operator.Exact
import RuleMachine.Proofs.Operator.Widening
import RuleMachine.Proofs.Operator.Division
import RuleMachine.Proofs.Operator.Blocks
import RuleMachine.Proofs.Run.Effect
import RuleMachine.Proofs.Run.Condition
import RuleMachine.Proofs.Run.Faults
import RuleMachine.Proofs.Run.Safety
import RuleMachine.Proofs.Run.Provenance
import RuleMachine.Proofs.Run.Limit
import RuleMachine.Proofs.Run.Noninterference
import RuleMachine.Proofs.Run.Frame
import RuleMachine.Proofs.Machine.History
import RuleMachine.Proofs.Machine.Validated
import RuleMachine.Proofs.Machine.Dwell
import RuleMachine.Proofs.Machine.Restart
import RuleMachine.Proofs.Script.Assembled
import RuleMachine.Proofs.Script.Simulation
import RuleMachine.Proofs.Listing.Stream
import RuleMachine.Proofs.Listing.Lines
