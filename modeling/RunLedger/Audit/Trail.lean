/-
  Audit/Trail.lean --- the verified trail of a policy decision.

  WHAT THIS FILE IS FOR.  Whoever has to answer for a policy decision gets every
  event that belongs to it, with the digests by which the events can be checked,
  after the chain of the run that holds them has been checked.  A policy decision
  with events in several runs has no trail: chains are kept run by run, and there
  is no sound order in which to merge them.
-/
import RunLedger.Approval.Overview

set_option autoImplicit false

namespace RunLedger

open RunLedger.Text (trim)
open RunLedger.Time (Instant)

/-- An event on a trail. -/
structure TrailEntry where
  eventId : String
  decisionId : String
  kind : EventKind
  actor : Actor
  timestamp : Instant
  /-- the details of the event -/
  reason : String
  prevHash : Option String
  hash : String
  deriving DecidableEq, Repr, Inhabited

namespace TrailEntry

/-- The entry of a record. -/
def ofRecord (decisionId : String) (r : Record) : TrailEntry where
  eventId := r.eventId
  decisionId := decisionId
  kind := r.event.kind
  actor := r.event.actor
  timestamp := r.timestamp
  reason := r.event.details
  prevHash := r.prevHash
  hash := r.hash

/-- The document of an entry. -/
def toJson (entry : TrailEntry) : Json :=
  .object [
    ("event_id", .text entry.eventId),
    ("decision_id", .text entry.decisionId),
    ("action_type", .text entry.kind.name),
    ("actor", .text entry.actor.name),
    ("timestamp", .instant entry.timestamp),
    ("reason", .text entry.reason),
    ("prev_hash", .optionalText entry.prevHash),
    ("hash", .text entry.hash)]

end TrailEntry

/-- The trail of a policy decision. -/
structure DecisionTrail where
  decisionId : String
  runId : String
  /-- the digest of the last record in the chain of the run -/
  chainHead : Option String
  entries : List TrailEntry
  deriving DecidableEq, Repr, Inhabited

namespace DecisionTrail

/-- The document of a trail. -/
def toJson (trail : DecisionTrail) : Json :=
  .object [
    ("decision_id", .text trail.decisionId),
    ("run_id", .text trail.runId),
    ("chain_head", .optionalText trail.chainHead),
    ("entries", .list (trail.entries.map TrailEntry.toJson))]

end DecisionTrail

namespace Ledger

variable {σ : Type} [EventStore σ]

/-- The trail of a policy decision. -/
def decisionTrail (decisionId : String) : LedgerM σ DecisionTrail := do
  let decisionId := trim decisionId
  let records ← recordsOfDecision decisionId
  match runIdsOf records with
  | [] => throw (.approvalNotFound decisionId .decisionId)
  | [runId] =>
    let report ← call (checkRun runId)
    return {
      decisionId := decisionId
      runId := runId
      chainHead := report.headHash
      entries := records.map (.ofRecord decisionId) }
  | runIds => throw (.scatteredDecision decisionId runIds)

end Ledger

end RunLedger
