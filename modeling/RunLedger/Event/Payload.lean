/-
  Event/Payload.lean --- an event as a document.

  WHAT THIS FILE IS FOR.  The payload of an event is what is stored, hashed and
  answered.  Every field is written, absent ones as null, so that two events
  have the same payload only if they are the same.
-/
import RunLedger.Event.Basic
import RunLedger.Json.Basic
import RunLedger.Time.Timestamp

set_option autoImplicit false

namespace RunLedger

open RunLedger.Time (Instant)

namespace Json

/-- An instant in its written form. -/
def instant (t : Instant) : Json := .text t.format

/-- An optional instant, none as null. -/
def optionalInstant : Option Instant → Json
  | some t => .instant t
  | none => .null

end Json

/-- The document of an approval. -/
def Approval.toJson (approval : Approval) : Json :=
  .object [
    ("status", .text approval.status.name),
    ("decision_id", .optionalText approval.decisionId),
    ("requested_by", .optionalText approval.requestedBy),
    ("resolved_by", .optionalText approval.resolvedBy),
    ("resolved_at", .optionalInstant approval.resolvedAt),
    ("reason", .optionalText approval.reason)]

/-- The document of a piece of evidence. -/
def Evidence.toJson (evidence : Evidence) : Json :=
  .object [
    ("kind", .text evidence.kind.name),
    ("label", .text evidence.label),
    ("ref", .text evidence.reference)]

/-- The document of an origin. -/
def WorkflowStep.toJson (origin : WorkflowStep) : Json :=
  .object [("workflow", .text origin.workflow), ("step", .text origin.step)]

/-- The payload of an event. -/
def Event.payload (event : Event) : Json :=
  .object [
    ("id", .text event.id),
    ("run_id", .text event.runId),
    ("timestamp", .instant event.timestamp),
    ("type", .text event.kind.name),
    ("actor", .text event.actor.name),
    ("title", .text event.title),
    ("details", .text event.details),
    ("confidence", (event.confidence.map fun x => Json.number (.real x)).getD .null),
    ("risk_level", .optionalText (event.riskLevel.map RiskLevel.name)),
    ("requires_approval", .bool event.requiresApproval),
    ("approval", event.approval.toJson),
    ("evidence", .list (event.evidence.map Evidence.toJson)),
    ("meta", (event.origin.map WorkflowStep.toJson).getD .null)]

end RunLedger
