/-
  Event/Decode.lean --- reading an event from its document.

  WHAT THIS FILE IS FOR.  Callers send events as documents and stored payloads
  are read back.  Fields with a usual value may be left out, unknown fields are
  refused, and the values are taken as they are: trimming and the checks of
  content come later.
-/
import RunLedger.Event.Basic
import RunLedger.Decode.Record
import RunLedger.Json.Reader

set_option autoImplicit false

namespace RunLedger

open RunLedger.Decode
open RunLedger.Json (Draft)

/-! ## Words -/

/-- A kind of event by its name. -/
def EventKind.decode (origin : Origin) : Decoder EventKind :=
  choice origin (EventKind.all.map fun k => (k.name, k))

/-- An actor by its name. -/
def Actor.decode (origin : Origin) : Decoder Actor :=
  choice origin (Actor.all.map fun a => (a.name, a))

/-- A risk level by its name. -/
def RiskLevel.decode (origin : Origin) : Decoder RiskLevel :=
  choice origin (RiskLevel.all.map fun r => (r.name, r))

/-- The state of an approval by its name. -/
def ApprovalStatus.decode (origin : Origin) : Decoder ApprovalStatus :=
  choice origin (ApprovalStatus.all.map fun s => (s.name, s))

/-- A kind of evidence by its name. -/
def EvidenceKind.decode (origin : Origin) : Decoder EvidenceKind :=
  choice origin (EvidenceKind.all.map fun k => (k.name, k))

/-! ## Parts -/

namespace Approval

/-- The fields of an approval. -/
def form (origin : Origin) : Form where
  title := "struct Approval"
  strict := true
  slots := [
    .of "status" .required (ApprovalStatus.decode origin),
    .of "decision_id" .defaulted (optional text),
    .of "requested_by" .defaulted (optional text),
    .of "resolved_by" .defaulted (optional text),
    .of "resolved_at" .defaulted optionalInstant,
    .of "reason" .defaulted (optional text)]

/-- An approval from its document. -/
def decode (origin : Origin) : Decoder Approval := fun draft => do
  let fields ← (form origin).openDraft origin draft
  return {
    status := ← fields.get "status" (ApprovalStatus.decode origin)
    decisionId := ← fields.getD "decision_id" (optional text) none
    requestedBy := ← fields.getD "requested_by" (optional text) none
    resolvedBy := ← fields.getD "resolved_by" (optional text) none
    resolvedAt := ← fields.getD "resolved_at" optionalInstant none
    reason := ← fields.getD "reason" (optional text) none }

end Approval

namespace Evidence

/-- The fields of a piece of evidence. -/
def form (origin : Origin) : Form where
  title := "struct Evidence"
  strict := true
  slots := [
    .of "kind" .required (EvidenceKind.decode origin),
    .of "label" .required text,
    .of "ref" .required text]

/-- A piece of evidence from its document. -/
def decode (origin : Origin) : Decoder Evidence := fun draft => do
  let fields ← (form origin).openDraft origin draft
  return {
    kind := ← fields.get "kind" (EvidenceKind.decode origin)
    label := ← fields.get "label" text
    reference := ← fields.get "ref" text }

end Evidence

namespace WorkflowStep

/-- The fields of an origin. -/
def form : Form where
  title := "struct EventMeta"
  strict := true
  slots := [.of "workflow" .required text, .of "step" .required text]

/-- An origin from its document. -/
def decode (origin : Origin) : Decoder WorkflowStep := fun draft => do
  let fields ← form.openDraft origin draft
  return {
    workflow := ← fields.get "workflow" text
    step := ← fields.get "step" text }

end WorkflowStep

/-! ## Events -/

namespace Event

/-- The fields of an event. -/
def form (origin : Origin) : Form where
  title := "struct Event"
  strict := true
  slots := [
    .of "id" .required text,
    .of "run_id" .required text,
    .of "timestamp" .required instant,
    .of "type" .required (EventKind.decode origin),
    .of "actor" .required (Actor.decode origin),
    .of "title" .required text,
    .of "details" .required text,
    .of "confidence" .defaulted (optional real),
    .of "risk_level" .defaulted (optional (RiskLevel.decode origin)),
    .of "requires_approval" .defaulted bool,
    .of "approval" .required (Approval.decode origin),
    .of "evidence" .defaulted (list (Evidence.decode origin)),
    .of "meta" .defaulted (optional (WorkflowStep.decode origin))]

/-- An event from its document. -/
def decode (origin : Origin) : Decoder Event := fun draft => do
  let fields ← (form origin).openDraft origin draft
  return {
    id := ← fields.get "id" text
    runId := ← fields.get "run_id" text
    timestamp := ← fields.get "timestamp" instant
    kind := ← fields.get "type" (EventKind.decode origin)
    actor := ← fields.get "actor" (Actor.decode origin)
    title := ← fields.get "title" text
    details := ← fields.get "details" text
    confidence := ← fields.getD "confidence" (optional real) none
    riskLevel := ← fields.getD "risk_level" (optional (RiskLevel.decode origin)) none
    requiresApproval := ← fields.getD "requires_approval" bool false
    approval := ← fields.get "approval" (Approval.decode origin)
    evidence := ← fields.getD "evidence" (list (Evidence.decode origin)) []
    origin := ← fields.getD "meta" (optional (WorkflowStep.decode origin)) none }

/-- An event from a value. -/
def ofJson? (value : Json) : Except Fault Event :=
  decode .value value.toDraft

/-- An event from the text of its payload, decoded while it is read. -/
def ofText? (payload : String) : Except Fault Event :=
  match Json.readDraft payload.toList with
  | (draft, leftover) =>
    match decode .text draft, leftover with
    | .error fault, _ => .error fault
    | .ok _, some fault => .error (.badSyntax fault)
    | .ok event, none => .ok event

end Event

end RunLedger
