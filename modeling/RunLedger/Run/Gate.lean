/-
  Run/Gate.lean --- the rules that an event must satisfy to be recorded.

  WHAT THIS FILE IS FOR.  Before an event is recorded it is checked against the
  history of its run.  Every rule that it breaks is reported, not only the
  first.  When it breaks none, the history with the event put where it will be
  read must still have a status; a history that had none before is reported and
  nothing else is looked at.
-/
import RunLedger.Run.Status
import RunLedger.Run.Bisect

set_option autoImplicit false

namespace RunLedger

/-! ## Violations -/

/-- The rules. -/
inductive GateRule where
  | approvalRequestShape
  | pendingRequired
  | decisionIdMatch
  | terminalLock
  | approverRequired
  | approvalTimestampRequired
  | summaryCompletion
  | riskEvidence
  deriving DecidableEq, Repr, Inhabited

/-- The identifier under which a rule is cited. -/
def GateRule.id : GateRule → String
  | approvalRequestShape => "RULE-GATE-001"
  | pendingRequired => "RULE-GATE-002"
  | decisionIdMatch => "RULE-GATE-004"
  | terminalLock => "RULE-GATE-005"
  | approverRequired => "RULE-GATE-007"
  | approvalTimestampRequired => "RULE-GATE-008"
  | summaryCompletion => "RULE-GATE-010"
  | riskEvidence => "RULE-RISK-005"

/-- The codes of violations. -/
inductive ViolationCode where
  /-- the event does not follow a line of the status diagram -/
  | state (conflict : Misstep)
  | decisionIdMismatch
  | invalidSummaryCompletion
  | pendingApprovalExists
  | missingRiskEvidence
  deriving DecidableEq, Repr, Inhabited

/-- The written code. -/
def ViolationCode.name : ViolationCode → String
  | state conflict => conflict.name
  | decisionIdMismatch => "APPROVAL_DECISION_ID_MISMATCH"
  | invalidSummaryCompletion => "INVALID_SUMMARY_COMPLETION"
  | pendingApprovalExists => "PENDING_APPROVAL_EXISTS"
  | missingRiskEvidence => "MISSING_RISK_EVIDENCE"

/-- A broken rule: the field it was found in, a sentence, a code and the rule. -/
structure Violation where
  path : String
  message : String
  code : ViolationCode
  rule : GateRule
  deriving DecidableEq, Repr, Inhabited

/-- The rule that a conflict breaks. -/
def Misstep.rule : Misstep → GateRule
  | terminalState => .terminalLock
  | duplicatePendingApproval => .approvalRequestShape
  | invalidTransition => .decisionIdMatch
  | missingApproverId => .approverRequired
  | missingApprovalTimestamp => .approvalTimestampRequired
  | noPendingApproval => .pendingRequired
  | rejectedState => .pendingRequired

/-- A conflict as a violation. -/
def RunConflict.toViolation (conflict : RunConflict) : Violation :=
  ⟨conflict.path, conflict.message, .state conflict.code, conflict.code.rule⟩

/-! ## The rules -/

namespace Gate

/-- No event is added to a run that has ended. -/
def endedRules (current : RunState) : List Violation :=
  if current.status.isTerminal then
    [⟨"type", terminalMessage current.status, .state .terminalState, .terminalLock⟩]
  else []

/-- A request asks for approval and is pending. -/
def requestRules (event : Event) : List Violation :=
  (if event.requiresApproval then []
   else [⟨"requires_approval", "approval_requested events must set requires_approval",
     .state .invalidTransition, .approvalRequestShape⟩]) ++
  (if event.approval.status = .pending then []
   else [⟨"approval.status",
     "approval_requested events must be pending, got " ++ event.approval.status.name,
     .state .invalidTransition, .approvalRequestShape⟩])

/-- The policy decision of a request that is open, looked up in the history by the identifier of
the request. -/
def decisionOf? (history : List Record) (pending : OpenRequest) : Option String :=
  (history.find? fun r => r.eventId == pending.eventId).bind fun r => r.event.decision?

/-- An answer has a request to answer, belongs to the same policy decision as the request if that
belongs to one, and says who answered and when. -/
def answerRules (event : Event) (history : List Record) (current : RunState) :
    List Violation :=
  (match current.pending with
   | none =>
     [⟨"approval", "approval_resolved requires a pending approval in the run",
       .state .noPendingApproval, .pendingRequired⟩]
   | some pending =>
     match decisionOf? history pending with
     | none => []
     | some expected =>
       if event.decision? = some expected then []
       else [⟨"approval.decision_id",
         "approval_resolved decision_id must match pending decision '" ++ expected ++ "'",
         .decisionIdMismatch, .decisionIdMatch⟩]) ++
  (if Text.isBlankOption event.approval.resolvedBy then
     [⟨"approval.resolved_by", "approval_resolved requires resolved_by",
       .state .missingApproverId, .approverRequired⟩]
   else []) ++
  (if event.approval.resolvedAt.isNone then
     [⟨"approval.resolved_at", "approval_resolved requires resolved_at",
       .state .missingApprovalTimestamp, .approvalTimestampRequired⟩]
   else [])

/-- A summary needs no approval itself and leaves no request open. -/
def summaryRules (event : Event) (current : RunState) : List Violation :=
  (if event.requiresApproval || event.approval.status != .notRequired then
     [⟨"approval", "summary events must not require approval",
       .invalidSummaryCompletion, .summaryCompletion⟩]
   else []) ++
  (match current.pending with
   | some pending =>
     [⟨"type", "run cannot complete while approval '" ++ pending.eventId ++ "' is pending",
       .pendingApprovalExists, .summaryCompletion⟩]
   | none => [])

/-- An action at high risk, or one that needs approval, comes with evidence. -/
def actionRules (event : Event) : List Violation :=
  if (event.riskLevel == some .high || event.requiresApproval) && event.evidence.isEmpty then
    [⟨"evidence", "high-risk or approval-gated actions must include evidence",
      .missingRiskEvidence, .riskEvidence⟩]
  else []

/-- The rules for the kind of an event. -/
def kindRules (event : Event) (history : List Record) (current : RunState) : List Violation :=
  match event.kind with
  | .approvalRequested => requestRules event
  | .approvalResolved => answerRules event history current
  | .summary => summaryRules event current
  | .action => actionRules event
  | _ => []

/-! ## The place of an event in its history -/

/-- How many records of a history are read before an event that is recorded next: those up to
its time.  The history is in read order, so the place is found by halving. -/
def readPosition (event : Event) (history : List Record) : Nat :=
  splitPoint (fun r => decide (r.timestamp ≤ event.timestamp)) history

/-- The events of a history with one more put where it will be read. -/
def historyWith (event : Event) (history : List Record) : List Event :=
  let events := history.map Record.event
  let position := readPosition event history
  events.take position ++ event :: events.drop position

/-- The rules that an event breaks against the history of its run, in the order in which they are
reported. -/
def violations (event : Event) (history : List Record) : List Violation :=
  match RunState.ofRecords history with
  | .error conflict => [conflict.toViolation]
  | .ok current =>
    match endedRules current ++ kindRules event history current with
    | [] =>
      match RunState.ofEvents (historyWith event history) with
      | .error conflict => [conflict.toViolation]
      | .ok _ => []
    | found => found

end Gate

end RunLedger
