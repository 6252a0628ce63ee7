/-
  Approval/Register.lean --- asking for an approval.

  WHAT THIS FILE IS FOR.  A policy decision that needs a human is put on record
  as a request in the run that it concerns, which pauses the run.  A policy
  decision is asked about once: as long as any event that asks or answers carries
  it, in any run, it is not asked about again.
-/
import RunLedger.Ledger.Basic

set_option autoImplicit false

namespace RunLedger

open RunLedger.Text (trim)
open RunLedger.Time (Instant)

/-- The workflow that requests and answers are recorded under. -/
def approvalWorkflow : String := "approval_gate"

/-- The time for an event that is to come after the events of a run: now, unless the run has an
event as late as that; then a millisecond after its latest, which is taken to be in the range of a
clock. -/
def timeAfter (records : List Record) (now : Instant) : Instant :=
  match records.map Record.timestamp with
  | [] => now.toMicros
  | first :: rest =>
    let last := rest.foldl Instant.latest first
    if now.toMicros ≤ last then last.addMillis 1 else now.toMicros

/-- Whether an event belongs to a policy decision. -/
def Record.carries (r : Record) (decisionId : String) : Bool :=
  r.event.decision? == some decisionId

/-- Whether an event asks for an approval or answers one. -/
def Record.isSignal (r : Record) : Bool :=
  r.event.isRequest || r.event.isAnswer

namespace ApprovalRequest

/-- The event that puts a request on record. -/
def toEvent (request : ApprovalRequest) (at_ : Instant) (token : String) : Event :=
  let decisionId := trim request.decisionId
  { Event.plain ("evt_" ++ decisionId ++ "_pending_" ++ at_.unpunctuated ++ "_" ++ token)
      request.runId at_ .approvalRequested .agent request.title request.details with
    riskLevel := some request.riskLevel
    requiresApproval := true
    approval := { Approval.pending request.requestedBy with
      decisionId := some decisionId
      reason := request.reason }
    origin := some ⟨approvalWorkflow, "approval_requested"⟩ }

/-- The problem of a request that belongs to no policy decision. -/
def noDecision : Problem :=
  ⟨"decision_id", "decision_id must not be empty", .missingDecisionId⟩

end ApprovalRequest

namespace Ledger

variable {σ : Type} [EventStore σ]

/-- The records of all runs that belong to a policy decision, in read order. -/
def recordsOfDecision (decisionId : String) : LedgerM σ (List Record) := do
  let all ← call EventStore.readAll
  return all.filter fun r => r.carries decisionId

/-- Refuses a request whose policy decision asks or answers in these records of it already: as
pending if the last that does asks, as resolved if it answers. -/
def refuseRepetition (decisionId : String) (records : List Record) : LedgerM σ Unit :=
  match (records.filter Record.isSignal).getLast? with
  | some r =>
    throw (.duplicateApproval decisionId (if r.event.isRequest then .pending else .resolved))
  | none => return ()

/-- An event that is there already, as the refusal of a request for approval. -/
def requestExists (decisionId : String) : RequestError → RequestError
  | .store (.duplicateEvent ..) => .duplicateApproval decisionId .exists
  | error => error

/-- Puts a request for approval on record. -/
def register (around : Surroundings) (request : ApprovalRequest) : LedgerM σ Registration := do
  let decisionId := trim request.decisionId
  if decisionId = "" then throw (.store (.schemaValidation [ApprovalRequest.noDecision]))
  refuseRepetition decisionId (← recordsOfDecision decisionId)
  let history ← call (EventStore.readRun (trim request.runId))
  let now ← readClock around
  let token ← drawToken around
  let r ← ExceptT.adapt (requestExists decisionId)
    (submit (request.toEvent (timeAfter history now) token))
  return {
    decisionId := decisionId
    eventId := r.eventId
    runId := r.runId
    status := r.event.approval.status
    requestedAt := r.timestamp }

end Ledger

end RunLedger
