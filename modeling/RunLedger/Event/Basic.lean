/-
  Event/Basic.lean --- the events that a run consists of.

  WHAT THIS FILE IS FOR.  An agent's run is recorded as a sequence of events:
  what was intended, done, observed and decided, and who approved it.  An event
  is what a caller submits; it never changes afterwards.  Whatever changes the
  state of a run is another event of the same run.
-/
import RunLedger.Decimal.Binary64
import RunLedger.Time.Instant

set_option autoImplicit false

namespace RunLedger

open RunLedger.Decimal (Binary64)
open RunLedger.Time (Instant)

/-! ## The words of an event -/

/-- What an event records. -/
inductive EventKind where
  | intent
  | action
  | observation
  | decision
  | approvalRequested
  | approvalResolved
  | error
  | summary
  deriving DecidableEq, Repr, Inhabited

/-- Who an event comes from. -/
inductive Actor where
  | agent
  | system
  | human
  deriving DecidableEq, Repr, Inhabited

/-- How much is at stake. -/
inductive RiskLevel where
  | low
  | medium
  | high
  deriving DecidableEq, Repr, Inhabited

/-- The state of an approval, as an event carries it. -/
inductive ApprovalStatus where
  | notRequired
  | pending
  | approved
  | rejected
  deriving DecidableEq, Repr, Inhabited

/-- What a piece of evidence is. -/
inductive EvidenceKind where
  | log
  | url
  | artifact
  | diff
  deriving DecidableEq, Repr, Inhabited

namespace EventKind

/-- The kinds in the order of their declaration. -/
def all : List EventKind :=
  [intent, action, observation, decision, approvalRequested, approvalResolved, error, summary]

/-- The written name of a kind. -/
def name : EventKind → String
  | intent => "intent"
  | action => "action"
  | observation => "observation"
  | decision => "decision"
  | approvalRequested => "approval_requested"
  | approvalResolved => "approval_resolved"
  | error => "error"
  | summary => "summary"

end EventKind

namespace Actor

/-- The actors in the order of their declaration. -/
def all : List Actor := [agent, system, human]

/-- The written name of an actor. -/
def name : Actor → String
  | agent => "agent"
  | system => "system"
  | human => "human"

end Actor

namespace RiskLevel

/-- The levels in the order of their declaration. -/
def all : List RiskLevel := [low, medium, high]

/-- The written name of a level. -/
def name : RiskLevel → String
  | low => "low"
  | medium => "medium"
  | high => "high"

end RiskLevel

namespace ApprovalStatus

/-- The states in the order of their declaration. -/
def all : List ApprovalStatus := [notRequired, pending, approved, rejected]

/-- The written name of a state. -/
def name : ApprovalStatus → String
  | notRequired => "not_required"
  | pending => "pending"
  | approved => "approved"
  | rejected => "rejected"

/-- The two answers that a human can give. -/
def isResolved : ApprovalStatus → Bool
  | approved => true
  | rejected => true
  | _ => false

end ApprovalStatus

namespace EvidenceKind

/-- The kinds in the order of their declaration. -/
def all : List EvidenceKind := [log, url, artifact, diff]

/-- The written name of a kind. -/
def name : EvidenceKind → String
  | log => "log"
  | url => "url"
  | artifact => "artifact"
  | diff => "diff"

end EvidenceKind

/-! ## The parts of an event -/

/-- The approval that an event asks for, grants or refuses.  `decisionId` ties events to one
policy decision. -/
structure Approval where
  status : ApprovalStatus
  decisionId : Option String
  requestedBy : Option String
  resolvedBy : Option String
  resolvedAt : Option Instant
  reason : Option String
  deriving DecidableEq, Repr, Inhabited

namespace Approval

/-- No approval is needed. -/
def notRequired : Approval := ⟨.notRequired, none, none, none, none, none⟩

/-- An approval that somebody asks for. -/
def pending (requestedBy : String) : Approval :=
  { notRequired with status := .pending, requestedBy := some requestedBy }

/-- An approval that somebody has answered. -/
def resolved (status : ApprovalStatus) (resolvedBy : String) (resolvedAt : Instant) : Approval :=
  { notRequired with
    status := status, resolvedBy := some resolvedBy, resolvedAt := some resolvedAt }

end Approval

/-- Where to find what supports an event. -/
structure Evidence where
  kind : EvidenceKind
  label : String
  reference : String
  deriving DecidableEq, Repr, Inhabited

/-- The workflow that produced an event, and the step of it. -/
structure WorkflowStep where
  workflow : String
  step : String
  deriving DecidableEq, Repr, Inhabited

/-! ## Events -/

/-- An event.  Its `id` is meant to be unique in its run. -/
structure Event where
  id : String
  runId : String
  timestamp : Instant
  kind : EventKind
  actor : Actor
  title : String
  details : String
  confidence : Option Binary64
  riskLevel : Option RiskLevel
  requiresApproval : Bool
  approval : Approval
  evidence : List Evidence
  origin : Option WorkflowStep
  deriving DecidableEq, Repr, Inhabited

namespace Event

/-- An event that needs no approval and has neither evidence nor an origin. -/
def plain (id runId : String) (timestamp : Instant) (kind : EventKind) (actor : Actor)
    (title details : String) : Event where
  id := id
  runId := runId
  timestamp := timestamp
  kind := kind
  actor := actor
  title := title
  details := details
  confidence := none
  riskLevel := none
  requiresApproval := false
  approval := .notRequired
  evidence := []
  origin := none

/-- The policy decision that the event belongs to; an empty identifier is none. -/
def decision? (event : Event) : Option String :=
  event.approval.decisionId.filter fun id => id != ""

/-- The workflow that produced the event. -/
def workflow? (event : Event) : Option String := event.origin.map WorkflowStep.workflow

/-- The step that produced the event. -/
def step? (event : Event) : Option String := event.origin.map WorkflowStep.step

/-! ## Signals -/

/-- The event asks for an approval. -/
def isRequest (event : Event) : Bool :=
  event.kind == .approvalRequested ||
    (event.requiresApproval && event.approval.status == .pending)

/-- The event answers an approval. -/
def isAnswer (event : Event) : Bool :=
  event.kind == .approvalResolved ||
    (event.requiresApproval && event.approval.status.isResolved)

end Event

end RunLedger
