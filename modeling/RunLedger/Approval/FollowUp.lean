/-
  Approval/FollowUp.lean --- what follows when a request is approved.

  WHAT THIS FILE IS FOR.  A workflow may have a strategy for going on after an
  approval.  A strategy describes the events to record next; recording them is
  the ledger's part.  A strategy runs among the same things that the store is
  part of, so besides describing events it may act on the state of the store,
  for instance by taking it offline.
-/
import RunLedger.Record.Basic

set_option autoImplicit false

namespace RunLedger

/-- What a strategy gets to see: the request that was approved and the answer just recorded. -/
structure FollowUpContext where
  request : Record
  resolution : Record
  deriving DecidableEq, Repr, Inhabited

/-- A strategy beside a store with states `σ`. -/
abbrev Strategy (σ : Type) : Type := FollowUpContext → StateM σ (List Event)

/-- A strategy that only describes events. -/
def Strategy.pure {σ : Type} (describe : FollowUpContext → List Event) : Strategy σ :=
  fun context store => (describe context, store)

/-- The strategies by the workflows that they are for. -/
abbrev Strategies (σ : Type) : Type := List (String × Strategy σ)

namespace Strategies

variable {σ : Type}

/-- No strategy. -/
def none : Strategies σ := []

/-- Sets the strategy for a workflow; an earlier one gives way. -/
def set (workflow : String) (strategy : Strategy σ) : Strategies σ → Strategies σ
  | [] => [(workflow, strategy)]
  | (key, old) :: rest =>
    if workflow = key then (key, strategy) :: rest else (key, old) :: set workflow strategy rest

/-- The strategy for a workflow. -/
def find? (strategies : Strategies σ) (workflow : String) : Option (Strategy σ) :=
  strategies.lookup workflow

/-- The workflows that have a strategy, in order. -/
def workflows (strategies : Strategies σ) : List String :=
  (strategies.map Prod.fst).mergeSort fun a b => decide (a ≤ b)

end Strategies

/-!
## Inbox triage

The strategy that resumes an inbox triage: an action that says by whose approval it goes on, and
then the summary that completes the run.
-/

namespace Triage

/-- The workflow that the strategy is for. -/
def workflow : String := "triage_inbox"

/-- The action that resumes the run. -/
def resumption (context : FollowUpContext) : Event :=
  let request := context.request.event
  let resolution := context.resolution.event
  { Event.plain (request.id ++ "_resume") request.runId (resolution.timestamp.addMillis 1)
      .action .agent "Resume triage after approval"
      ("Approval granted by " ++ resolution.approval.resolvedBy.getD "human_reviewer" ++
        "; continuing the gated action.") with
    confidence := request.confidence
    riskLevel := some (request.riskLevel.getD .medium)
    evidence := [
      ⟨.log, "Approval resolution", "ledger://" ++ resolution.runId ++ "/" ++ resolution.id⟩]
    origin := some ⟨workflow, "resume_after_approval"⟩ }

/-- The summary that completes the run. -/
def completion (context : FollowUpContext) : Event :=
  let request := context.request.event
  { Event.plain (request.id ++ "_complete") request.runId
      (context.resolution.event.timestamp.addMillis 2)
      .summary .agent "Triage complete"
      "Inbox triage finished after the approved action was executed." with
    origin := some ⟨workflow, "run_completed"⟩ }

/-- The events that follow the approval of a triage request. -/
def followUp (context : FollowUpContext) : List Event :=
  [resumption context, completion context]

end Triage

/-- The strategies that are there from the start. -/
def Strategies.standard {σ : Type} : Strategies σ :=
  set Triage.workflow (.pure Triage.followUp) none

end RunLedger
