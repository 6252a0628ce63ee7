/-
  Approval/Overview.lean --- what there is to know about approvals.

  WHAT THIS FILE IS FOR.  Nothing about an approval is kept besides the events.
  Two questions are answered from them: where a policy decision stands, and
  which requests wait for an answer.
-/
import RunLedger.Approval.Register

set_option autoImplicit false

namespace RunLedger

open RunLedger.Text (trim)
open RunLedger.Time (Instant)

/-! ## One policy decision -/

/-- Where a policy decision stands. -/
structure DecisionState where
  decisionId : String
  runId : String
  status : ApprovalStatus
  requestedEventId : Option String
  resolvedEventId : Option String
  requestedAt : Option Instant
  resolvedAt : Option Instant
  requestedBy : Option String
  resolvedBy : Option String
  reason : Option String
  deriving DecidableEq, Repr, Inhabited

namespace DecisionState

/-- Where a policy decision stands, from its records in read order: what the last answer says if
there is one, otherwise what the first request says, otherwise what its last event says. -/
def ofRecords? (decisionId : String) (records : List Record) : Option DecisionState := do
  let last ← records.getLast?
  let requested := records.find? fun r => r.event.isRequest
  let resolved := records.reverse.find? fun r => r.event.isAnswer
  let anchor := ((resolved <|> requested).getD last).event
  return {
    decisionId := decisionId
    runId := anchor.runId
    status := anchor.approval.status
    requestedEventId := requested.map Record.eventId
    resolvedEventId := resolved.map Record.eventId
    requestedAt := requested.map Record.timestamp
    resolvedAt := anchor.approval.resolvedAt
    requestedBy :=
      (requested.bind fun r => r.event.approval.requestedBy) <|> anchor.approval.requestedBy
    resolvedBy := anchor.approval.resolvedBy
    reason := anchor.approval.reason }

/-- The document of where a policy decision stands. -/
def toJson (state : DecisionState) : Json :=
  .object [
    ("decision_id", .text state.decisionId),
    ("run_id", .text state.runId),
    ("status", .text state.status.name),
    ("requested_event_id", .optionalText state.requestedEventId),
    ("resolved_event_id", .optionalText state.resolvedEventId),
    ("requested_at", .optionalInstant state.requestedAt),
    ("resolved_at", .optionalInstant state.resolvedAt),
    ("requested_by", .optionalText state.requestedBy),
    ("resolved_by", .optionalText state.resolvedBy),
    ("reason", .optionalText state.reason)]

end DecisionState

/-! ## Requests that wait -/

/-- A request that waits for an answer. -/
structure WaitingRequest where
  eventId : String
  decisionId : Option String
  runId : String
  requestedAt : Instant
  requestedBy : Option String
  title : String
  details : String
  reason : String
  riskLevel : Option RiskLevel
  deriving DecidableEq, Repr, Inhabited

namespace WaitingRequest

/-- The request that a run with these records and this state waits on, if it does. -/
def ofRun? (runId : String) (records : List Record) (state : RunState) :
    Option WaitingRequest := do
  let pending ← state.pending
  guard (state.status = .paused)
  let r ← records.find? fun r => r.eventId == pending.eventId
  return {
    eventId := pending.eventId
    decisionId := r.event.decision?
    runId := runId
    requestedAt := pending.requestedAt
    requestedBy := pending.requestedBy
    title := r.event.title
    details := r.event.details
    reason := pending.reason
    riskLevel := r.event.riskLevel }

/-- The first request is listed no later than the second: requests are listed by time, and those
of one time by the identifiers of their events. -/
def listedBefore (a b : WaitingRequest) : Bool :=
  decide (a.requestedAt < b.requestedAt) ||
    (decide (a.requestedAt = b.requestedAt) && decide (a.eventId ≤ b.eventId))

/-- The document of a request that waits. -/
def toJson (w : WaitingRequest) : Json :=
  .object [
    ("event_id", .text w.eventId),
    ("decision_id", .optionalText w.decisionId),
    ("run_id", .text w.runId),
    ("requested_at", .instant w.requestedAt),
    ("requested_by", .optionalText w.requestedBy),
    ("title", .text w.title),
    ("details", .text w.details),
    ("reason", .text w.reason),
    ("risk_level", .optionalText (w.riskLevel.map RiskLevel.name))]

end WaitingRequest

namespace Ledger

variable {σ : Type} [EventStore σ]

/-- Where a policy decision stands. -/
def decisionState (decisionId : String) : LedgerM σ DecisionState := do
  let decisionId := trim decisionId
  match DecisionState.ofRecords? decisionId (← recordsOfDecision decisionId) with
  | some state => return state
  | none => throw (.approvalNotFound decisionId .decisionId)

/-- The requests that some runs wait on, run by run. -/
def waitingIn : List String → LedgerM σ (List WaitingRequest)
  | [] => return []
  | runId :: rest => do
    let records ← call (EventStore.readRun runId)
    let state ← stateOf records
    let waiting ← waitingIn rest
    return (WaitingRequest.ofRun? runId records state).toList ++ waiting

/-- The requests that wait for an answer, oldest first. -/
def waitingRequests : LedgerM σ (List WaitingRequest) := do
  let all ← call EventStore.readAll
  let waiting ← waitingIn (runIdsOf all)
  return waiting.mergeSort WaitingRequest.listedBefore

end Ledger

end RunLedger
