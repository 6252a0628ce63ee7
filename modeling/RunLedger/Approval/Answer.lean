/-
  Approval/Answer.lean --- requests for approval and the answers to them.

  WHAT THIS FILE IS FOR.  What callers hand in to ask for an approval and to
  answer one, and what they get back when it is recorded.
-/
import RunLedger.Run.Status
import RunLedger.Event.Decode

set_option autoImplicit false

namespace RunLedger

open RunLedger.Decode
open RunLedger.Text (trim)
open RunLedger.Time (Instant)

/-! ## Answers -/

/-- A human's answer to a request. -/
inductive Answer where
  | approved
  | rejected
  deriving DecidableEq, Repr, Inhabited

namespace Answer

/-- The answers in the order of their declaration. -/
def all : List Answer := [approved, rejected]

/-- The written name of an answer. -/
def name : Answer → String
  | approved => "approved"
  | rejected => "rejected"

/-- The state of an approval with this answer. -/
def status : Answer → ApprovalStatus
  | approved => .approved
  | rejected => .rejected

/-- The step that an answer is recorded under.  A rejection is also the end of the run. -/
def step : Answer → String
  | approved => "approval_approved"
  | rejected => "approval_rejected"

/-- The title of the event that records an answer. -/
def title : Answer → String
  | approved => "Approval granted"
  | rejected => "Approval rejected"

/-- A word with the blanks around it removed and its ASCII letters in lower case. -/
def plainWord (raw : String) : String :=
  String.ofList ((trim raw).toList.map Char.toLower)

/-- The answer that a word stands for: the name of an answer, or the verb for it. -/
def ofWord? (raw : String) : Option Answer :=
  match plainWord raw with
  | "approved" => some .approved
  | "approve" => some .approved
  | "rejected" => some .rejected
  | "reject" => some .rejected
  | _ => none

/-- What is said about a word that is no answer. -/
def refusal (raw : String) : String :=
  "unknown decision '" ++ plainWord raw ++ "' (expected approved or rejected)"

/-- An answer by its name. -/
def decode (origin : Origin) : Decoder Answer :=
  choice origin (all.map fun a => (a.name, a))

end Answer

/-! ## What callers hand in -/

/-- What is asked for when an approval is requested. -/
structure ApprovalRequest where
  decisionId : String
  runId : String
  requestedBy : String
  title : String
  details : String
  riskLevel : RiskLevel
  reason : Option String
  deriving DecidableEq, Repr, Inhabited

namespace ApprovalRequest

/-- The fields of a request. -/
def form : Form where
  title := "struct ApprovalRequest"
  strict := false
  slots := [
    .of "decision_id" .required text,
    .of "run_id" .required text,
    .of "requested_by" .required text,
    .of "title" .required text,
    .of "details" .required text,
    .of "risk_level" .required (RiskLevel.decode .value),
    .of "reason" .defaulted (optional text)]

/-- A request from a value. -/
def ofJson? (value : Json) : Except Fault ApprovalRequest := do
  let fields ← form.openDraft .value value.toDraft
  return {
    decisionId := ← fields.get "decision_id" text
    runId := ← fields.get "run_id" text
    requestedBy := ← fields.get "requested_by" text
    title := ← fields.get "title" text
    details := ← fields.get "details" text
    riskLevel := ← fields.get "risk_level" (RiskLevel.decode .value)
    reason := ← fields.getD "reason" (optional text) none }

end ApprovalRequest

/-- An answer together with who gives it and why. -/
structure Resolution where
  answer : Answer
  approverId : String
  reason : Option String
  deriving DecidableEq, Repr, Inhabited

namespace Resolution

/-- The fields of a resolution. -/
def form : Form where
  title := "struct Resolution"
  strict := false
  slots := [
    .of "decision" .required (Answer.decode .value),
    .of "approver_id" .required text,
    .of "reason" .defaulted (optional text)]

/-- A resolution from a value. -/
def ofJson? (value : Json) : Except Fault Resolution := do
  let fields ← form.openDraft .value value.toDraft
  return {
    answer := ← fields.get "decision" (Answer.decode .value)
    approverId := ← fields.get "approver_id" text
    reason := ← fields.getD "reason" (optional text) none }

end Resolution

/-- The request that an answer is meant for. -/
inductive ApprovalTarget where
  /-- by the identifier of the event that asks -/
  | event (eventId : String)
  /-- by the policy decision that the request belongs to -/
  | decision (decisionId : String)
  deriving DecidableEq, Repr, Inhabited

/-! ## What callers get back -/

/-- A request that has been recorded. -/
structure Registration where
  decisionId : String
  eventId : String
  runId : String
  status : ApprovalStatus
  requestedAt : Instant
  deriving DecidableEq, Repr, Inhabited

/-- The document of a registration. -/
def Registration.toJson (r : Registration) : Json :=
  .object [
    ("decision_id", .text r.decisionId),
    ("event_id", .text r.eventId),
    ("run_id", .text r.runId),
    ("approval_status", .text r.status.name),
    ("requested_at", .instant r.requestedAt)]

/-- An answer that has been recorded. -/
structure Outcome where
  /-- the event that records the answer -/
  eventId : String
  /-- the event that asked -/
  targetEventId : String
  decisionId : Option String
  runId : String
  answer : Answer
  resolvedAt : Instant
  /-- the status of the run before the answer -/
  before : RunStatus
  /-- the status of the run after the answer and all that followed from it -/
  after : RunStatus
  /-- the events that followed from the answer -/
  followUpIds : List String
  deriving DecidableEq, Repr, Inhabited

namespace Outcome

/-- The step that the run has made. -/
def transition (o : Outcome) : String := o.before.name ++ "->" ++ o.after.name

/-- The document of an outcome. -/
def toJson (o : Outcome) : Json :=
  .object [
    ("event_id", .text o.eventId),
    ("target_event_id", .text o.targetEventId),
    ("decision_id", .optionalText o.decisionId),
    ("run_id", .text o.runId),
    ("decision", .text o.answer.name),
    ("resolved_at", .instant o.resolvedAt),
    ("run_status", .text o.after.name),
    ("continuation_event_ids", .list (o.followUpIds.map .text)),
    ("state_transition", .text o.transition)]

end Outcome

end RunLedger
