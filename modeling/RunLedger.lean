import RunLedger.Main
import RunLedger.Record.Decode
import RunLedger.Store.Change
import RunLedger.Store.Memory
import RunLedger.Store.Outage
import RunLedger.Proofs.Run.Placement
import RunLedger.Proofs.Text.Trim
import RunLedger.Proofs.Run.Insertion
import RunLedger.Proofs.Run.GatedHistory
import RunLedger.Proofs.Store.MemoryLog
import RunLedger.Proofs.Ledger.Request
import RunLedger.Proofs.Ledger.Acceptance
import RunLedger.Proofs.Ledger.ApprovalHistory
import RunLedger.Proofs.Ledger.SelfValidating
import RunLedger.Proofs.Ledger.StatusMoves
import RunLedger.Proofs.Approval.Outcome
import RunLedger.Proofs.Approval.AnsweredOnce
import RunLedger.Proofs.Approval.OpenRequest
import RunLedger.Proofs.Ledger.Answerable
import RunLedger.Proofs.Decimal.Spacing
import RunLedger.Proofs.Decimal.Shortest
import RunLedger.Proofs.Json.Number
import RunLedger.Proofs.Json.Text
import RunLedger.Proofs.Json.Canonical
import RunLedger.Proofs.Json.Placing
import RunLedger.Proofs.Json.Rearrangement
import RunLedger.Proofs.Record.Envelope
import RunLedger.Proofs.Event.Payload
import RunLedger.Proofs.Record.Chain
import RunLedger.Proofs.Record.Tampering
import RunLedger.Proofs.Text.Digit
import RunLedger.Proofs.Time.Calendar
import RunLedger.Proofs.Time.Timestamp
import RunLedger.Proofs.Json.Reader
import RunLedger.Proofs.Decode.Record
import RunLedger.Proofs.Event.Decode
import RunLedger.Proofs.Store.Call
import RunLedger.Proofs.Store.Rows
import RunLedger.Proofs.Store.DurableLog
import RunLedger.Proofs.Store.Refinement
import RunLedger.Proofs.Ledger.Legible
import RunLedger.Proofs.Store.Check
import RunLedger.Proofs.Store.SealedLog
import RunLedger.Proofs.Store.Alteration
import RunLedger.Proofs.Store.Appended
import RunLedger.Proofs.Audit.Trail
import RunLedger.Proofs.Audit.Completeness
import RunLedger.Proofs.Ledger.TerminalLock
import RunLedger.Proofs.Approval.RecordedAnswer
import RunLedger.Proofs.Ledger.Mirror
import RunLedger.Proofs.Approval.NeverLost
import RunLedger.Proofs.Approval.StoppedRun
import RunLedger.Proofs.Ledger.Isolation
import RunLedger.Proofs.Ledger.NoTrace
import RunLedger.Proofs.Ledger.Replay
import RunLedger.Proofs.Run.Diagram
import RunLedger.Proofs.Approval.WaitingList
import RunLedger.Proofs.Approval.ByDecision
import RunLedger.Proofs.Store.SharedLog
import RunLedger.Proofs.Approval.ApprovalCall
import RunLedger.Proofs.Approval.DecisionStage
import RunLedger.Proofs.Approval.Lifecycle
import RunLedger.Proofs.Ledger.LastRecord
import RunLedger.Proofs.Approval.Registration
import RunLedger.Proofs.Approval.Repetition
import RunLedger.Proofs.Approval.TriageRun
import RunLedger.Proofs.Approval.WrittenLast
import RunLedger.Proofs.Text.Bytes
import RunLedger.Proofs.Store.TimeColumn
import RunLedger.Proofs.Approval.Lookup
import RunLedger.Proofs.Ledger.Intake
import RunLedger.Proofs.Text.Search
import RunLedger.Proofs.Decode.Cause
import RunLedger.Proofs.Decode.Opening
import RunLedger.Proofs.Event.Refusal
import RunLedger.Proofs.Event.Sorting
