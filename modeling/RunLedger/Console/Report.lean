/-
  Console/Report.lean --- what commands print.

  WHAT THIS FILE IS FOR.  A command prints lines and may fail; what it printed
  before it failed stays printed.  The lines are made here from the answers of
  the ledger: tables for reading, documents for programs.
-/
import RunLedger.Audit.Trail
import RunLedger.Json.Pretty
import RunLedger.Text.Column

set_option autoImplicit false

namespace RunLedger.Console

open RunLedger.Text (padLeft padRight dashes)
open RunLedger.Time (Instant)

/-! ## Failures -/

/-- Why a command fails. -/
inductive Failure where
  /-- a file cannot be read -/
  | unreadable (path : String)
  /-- a file does not hold a document -/
  | notJson (path : String)
  /-- a folder cannot be made -/
  | noFolder (path : String)
  /-- some events were not recorded -/
  | rejected (count : Nat)
  /-- the store fails on its own -/
  | store (error : StoreError)
  /-- the ledger refuses -/
  | request (error : RequestError)
  /-- a chain is broken -/
  | brokenChain
  /-- the answer is recorded, but what should follow from it is not -/
  | followUp (cause : RequestError)
  deriving DecidableEq, Repr, Inhabited

/-- The sentence about a failure. -/
def Failure.message : Failure → String
  | unreadable path => "failed to read " ++ path
  | notJson path => path ++ " is not valid JSON"
  | noFolder path => "failed to create " ++ path
  | rejected count => toString count ++ " event(s) were rejected"
  | store error => error.message
  | request error => error.report
  | brokenChain => "Ledger integrity check failed"
  | followUp cause => "post-approval continuation failed: " ++ cause.report

/-! ## Reports -/

/-- What a command prints, and why it fails if it does. -/
structure Report where
  lines : List String
  failure : Option Failure
  deriving DecidableEq, Repr, Inhabited

namespace Report

/-- A command that prints lines and succeeds. -/
def print (lines : List String) : Report := ⟨lines, none⟩

/-- A command that fails before it prints anything. -/
def fail (failure : Failure) : Report := ⟨[], some failure⟩

/-- A command that prints a document. -/
def document (value : Json) : Report := .print [value.pretty]

/-- The printed text: every line with its end. -/
def text (report : Report) : String :=
  String.join (report.lines.map fun line => line ++ "\n")

end Report

/-! ## Events -/

/-- A row of the listing of events. -/
def eventRow (sequence time run event kind actor title : String) : String :=
  padRight 6 sequence ++ " " ++ padRight 20 time ++ " " ++ padRight 16 run ++ " " ++
    padRight 28 event ++ " " ++ padRight 19 kind ++ " " ++ padRight 7 actor ++ " " ++ title

/-- The row of a record; one whose time runs backwards is marked. -/
def recordRow (r : Record) : String :=
  eventRow (toString r.sequence) r.timestamp.toTheSecond r.runId r.eventId r.event.kind.name
    r.event.actor.name (r.event.title ++ if r.integrityWarning then "  [!]" else "")

/-- The listing of events. -/
def eventListing : List Record → List String
  | [] => ["No events."]
  | records =>
    eventRow "SEQ" "TIMESTAMP" "RUN" "EVENT" "TYPE" "ACTOR" "TITLE" :: dashes 110 ::
      records.map recordRow ++ ["", toString records.length ++ " event(s)."]

/-- The line about an event that has been recorded. -/
def acceptedLine (index : Nat) (r : Record) : String :=
  "#" ++ padRight 4 (toString index) ++ " " ++ r.runId ++ " / " ++ r.eventId ++
    " accepted as sequence " ++ toString r.sequence ++
    if r.integrityWarning then "  [integrity warning: timestamp regresses]" else ""

/-- The line about an event that has been refused. -/
def rejectedLine (index : Nat) (error : RequestError) : String :=
  "#" ++ padRight 4 (toString index) ++ " rejected: " ++ error.report

/-- The last line about a file of events. -/
def ingestedLine (accepted rejected : Nat) : String :=
  toString accepted ++ " accepted, " ++ toString rejected ++ " rejected."

/-! ## Runs and approvals -/

/-- Where a run stands. -/
def stateLines (runId : String) (state : RunState) : List String :=
  ["Run:     " ++ runId, "Status:  " ++ state.status.name] ++
    match state.pending with
    | none => ["Pending approval: none"]
    | some pending => [
        "Pending approval:",
        "  Event:        " ++ pending.eventId,
        "  Requested by: " ++ pending.requestedBy.getD "-",
        "  Requested at: " ++ pending.requestedAt.toTheSecond ++ " UTC",
        "  Reason:       " ++ pending.reason]

/-- A row of the listing of requests. -/
def waitingRow (time run event decision risk title : String) : String :=
  padRight 20 time ++ " " ++ padRight 16 run ++ " " ++ padRight 44 event ++ " " ++
    padRight 16 decision ++ " " ++ padRight 6 risk ++ " " ++ title

/-- The row of a request that waits. -/
def requestRow (w : WaitingRequest) : String :=
  waitingRow w.requestedAt.toTheSecond w.runId w.eventId (w.decisionId.getD "-")
    ((w.riskLevel.map RiskLevel.name).getD "-") w.title

/-- The listing of requests that wait. -/
def waitingListing : List WaitingRequest → List String
  | [] => ["No pending approvals."]
  | waiting =>
    waitingRow "REQUESTED" "RUN" "EVENT" "DECISION" "RISK" "TITLE" :: dashes 120 ::
      waiting.map requestRow ++ ["", toString waiting.length ++ " pending approval(s)."]

/-- The line about a request that has been recorded. -/
def registeredLine (r : Registration) : String :=
  "Registered pending approval " ++ r.eventId ++ " for decision " ++ r.decisionId ++
    " on run " ++ r.runId ++ "."

/-- The lines about an answer that has been recorded with all that follows from it. -/
def resolvedLines (o : Outcome) : List String :=
  ("Resolved " ++ o.targetEventId ++ " as " ++ o.answer.name ++ " (" ++ o.transition ++
      "), recorded as " ++ o.eventId ++ ".") ::
    o.followUpIds.map fun id => "  continued with " ++ id

/-- The line about an answer that has been recorded without what should follow from it. -/
def resolvedOnlyLine (o : Outcome) : String :=
  "Resolved " ++ o.targetEventId ++ " as " ++ o.answer.name ++ ", recorded as " ++ o.eventId ++
    "."

/-! ## Audits -/

/-- The line about a run whose chain has been checked. -/
def chainLine (report : ChainReport) : String :=
  padRight 24 report.runId ++ " " ++ padLeft 6 (toString report.eventCount) ++
    " event(s)  head " ++ report.headHash.getD "-"

/-- The lines about chains that have been checked. -/
def intactLines (reports : List ChainReport) : List String :=
  (if reports.isEmpty then ["No events recorded."] else reports.map chainLine) ++
    ["Hash chain intact for " ++ toString reports.length ++ " run(s)."]

/-- The lines about a broken chain. -/
def brokenLines (runId eventId : String) (sequence : Nat) (found : ChainBreak) : List String := [
  "INTEGRITY VIOLATION in run " ++ runId ++ ":",
  "  Event:    " ++ eventId ++ " (sequence " ++ toString sequence ++ ")",
  "  Problem:  " ++ found.message,
  "",
  "The ledger may have been tampered with."]

end RunLedger.Console
