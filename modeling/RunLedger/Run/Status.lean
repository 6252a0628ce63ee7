/-
  Run/Status.lean --- the status of a run.

  WHAT THIS FILE IS FOR.  A run's status is not stored.  It is what its events,
  in read order, make of a run that begins as running:

      running  --request-->  paused  --answer-->  approved  --any event-->  running
                                        |
                                        +------>  rejected  --stop-->  stopped

  An event that marks the end of the run ends it from any status.  A history
  that does not follow these lines is a conflict, which is reported with the
  first event that does not fit and never repaired.
-/
import RunLedger.Record.Basic

set_option autoImplicit false

namespace RunLedger

open RunLedger.Time (Instant)

/-! ## Statuses -/

/-- The status of a run. -/
inductive RunStatus where
  | running
  /-- waiting for the answer to a request -/
  | paused
  | approved
  /-- to be followed by a stop -/
  | rejected
  | stopped
  | expired
  | completed
  deriving DecidableEq, Repr, Inhabited

namespace RunStatus

/-- The written name of a status. -/
def name : RunStatus → String
  | running => "running"
  | paused => "paused"
  | approved => "approved"
  | rejected => "rejected"
  | stopped => "stopped"
  | expired => "expired"
  | completed => "completed"

/-- The run has ended. -/
def isTerminal : RunStatus → Bool
  | stopped => true
  | expired => true
  | completed => true
  | _ => false

end RunStatus

/-- The one request of a run that is not answered yet. -/
structure OpenRequest where
  eventId : String
  requestedBy : Option String
  requestedAt : Instant
  /-- the reason that the request gives, or its details if it gives none -/
  reason : String
  deriving DecidableEq, Repr, Inhabited

/-- Where a run stands. -/
structure RunState where
  status : RunStatus
  pending : Option OpenRequest
  deriving DecidableEq, Repr, Inhabited

namespace RunState

/-- A run without events. -/
def start : RunState := ⟨.running, none⟩

end RunState

/-! ## Conflicts -/

/-- The line of the status diagram that an event does not follow. -/
inductive Misstep where
  | terminalState
  | rejectedState
  | invalidTransition
  | noPendingApproval
  | missingApproverId
  | missingApprovalTimestamp
  | duplicatePendingApproval
  deriving DecidableEq, Repr, Inhabited

/-- The written code of a conflict. -/
def Misstep.name : Misstep → String
  | terminalState => "TERMINAL_STATE_CONFLICT"
  | rejectedState => "REJECTED_STATE_CONFLICT"
  | invalidTransition => "INVALID_APPROVAL_TRANSITION"
  | noPendingApproval => "NO_PENDING_APPROVAL"
  | missingApproverId => "MISSING_APPROVER_ID"
  | missingApprovalTimestamp => "MISSING_APPROVAL_TIMESTAMP"
  | duplicatePendingApproval => "DUPLICATE_PENDING_APPROVAL"

/-- A history with an event that does not fit: the field it was found in, a sentence, the line
that is not followed, and the event. -/
structure RunConflict where
  path : String
  message : String
  code : Misstep
  eventId : String
  deriving DecidableEq, Repr, Inhabited

/-- The sentence about a conflict. -/
def RunConflict.describe (conflict : RunConflict) : String :=
  "inconsistent run state at event '" ++ conflict.eventId ++ "' (" ++ conflict.code.name ++
    "): " ++ conflict.message

/-! ## The effect of one event -/

namespace Event

/-- The status that an event ends its run with, if it marks the end. -/
def ending? (event : Event) : Option RunStatus :=
  if event.kind = .summary then some .completed
  else
    match event.step? with
    | some "run_expired" => some .expired
    | some "approval_expired" => some .expired
    | some "run_stopped" => some .stopped
    | some "approval_rejected" => some .stopped
    | _ => none

/-- The conflict of an event. -/
def conflict (event : Event) (path : String) (code : Misstep) (message : String) :
    RunConflict :=
  ⟨path, message, code, event.id⟩

/-- The reason of a request: the one it gives unless that is blank, else its details. -/
def requestReason (event : Event) : String :=
  match event.approval.reason with
  | some reason => if Text.isBlankText reason then event.details else reason
  | none => event.details

/-- The request that an event opens. -/
def toOpenRequest (event : Event) : OpenRequest where
  eventId := event.id
  requestedBy := event.approval.requestedBy
  requestedAt := event.timestamp
  reason := event.requestReason

end Event

/-- What is said to an event of a run that has ended. -/
def terminalMessage (status : RunStatus) : String :=
  "run is already " ++ status.name ++ "; no further events are allowed"

namespace RunState

/-- The effect of an answer: it must be one of the two answers, to an open request, by somebody,
at some time. -/
def resolve (p : RunState) (event : Event) : Except RunConflict RunState :=
  let answer : Option RunStatus :=
    match event.approval.status with
    | .approved => some .approved
    | .rejected => some .rejected
    | _ => none
  match answer with
  | none =>
    .error (event.conflict "approval.status" .invalidTransition
      ("approval resolution must be approved or rejected, got " ++ event.approval.status.name))
  | some status =>
    if p.pending.isNone then
      .error (event.conflict "approval" .noPendingApproval
        "approval resolution has no pending approval to resolve")
    else if Text.isBlankOption event.approval.resolvedBy then
      .error (event.conflict "approval.resolved_by" .missingApproverId
        "approval resolution requires resolved_by")
    else if event.approval.resolvedAt.isNone then
      .error (event.conflict "approval.resolved_at" .missingApprovalTimestamp
        "approval resolution requires resolved_at")
    else .ok ⟨status, none⟩

/-- The effect of a request: no other may be open. -/
def request (p : RunState) (event : Event) : Except RunConflict RunState :=
  match p.pending with
  | some pending =>
    .error (event.conflict "approval.status" .duplicatePendingApproval
      ("approval '" ++ pending.eventId ++ "' is still pending; only one may be open per run"))
  | none => .ok ⟨.paused, some event.toOpenRequest⟩

/-- The effect of an event that neither asks nor answers nor ends the run. -/
def pass (p : RunState) : RunState :=
  if p.pending.isSome then { p with status := .paused }
  else if p.status = .approved then { p with status := .running }
  else p

/-- The effect of an event on where a run stands. -/
def step (p : RunState) (event : Event) : Except RunConflict RunState :=
  if p.status.isTerminal then
    .error (event.conflict "type" .terminalState (terminalMessage p.status))
  else
    match event.ending? with
    | some status => .ok ⟨status, none⟩
    | none =>
      if p.status = .rejected then
        .error (event.conflict "type" .rejectedState
          "a rejected approval must be followed by a terminal stop")
      else if event.isAnswer then p.resolve event
      else if event.isRequest then p.request event
      else .ok p.pass

/-- The effect of events, one after the other, up to the first conflict. -/
def steps : RunState → List Event → Except RunConflict RunState
  | p, [] => .ok p
  | p, event :: rest =>
    match p.step event with
    | .ok p => p.steps rest
    | .error conflict => .error conflict

/-- Where a run with these events, in read order, stands. -/
def ofEvents (events : List Event) : Except RunConflict RunState :=
  start.steps events

/-- Where a run with these records, in read order, stands. -/
def ofRecords (records : List Record) : Except RunConflict RunState :=
  ofEvents (records.map Record.event)

/-! ## Documents -/

/-- The document of where a run stands. -/
def toJson (p : RunState) : Json :=
  .object [
    ("status", .text p.status.name),
    ("pending_approval",
      match p.pending with
      | some pending =>
        .object [
          ("event_id", .text pending.eventId),
          ("requested_by", .optionalText pending.requestedBy),
          ("requested_at", .instant pending.requestedAt),
          ("reason", .text pending.reason)]
      | none => .null)]

end RunState

end RunLedger
