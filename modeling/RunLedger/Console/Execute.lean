/-
  Console/Execute.lean --- carrying out commands.

  WHAT THIS FILE IS FOR.  Every command opens the ledger of the project anew, so
  nothing is remembered from one command to the next but what is in the files.
-/
import RunLedger.Approval.Resolve
import RunLedger.Console.Command
import RunLedger.Console.Report
import RunLedger.Project.Config
import RunLedger.Project.LedgerFile
import RunLedger.Store.Protected

set_option autoImplicit false

namespace RunLedger.Console

open RunLedger.Project (Config Files joinPath parentPath?)

/-! ## On an open ledger -/

section

variable {σ α : Type} [EventStore σ]

/-- What a command does on an open ledger. -/
abbrev Action (σ : Type) : Type := Ledger σ → Report × Ledger σ

/-- Carries out a request and reports its answer. -/
def reporting (failure : RequestError → Report) (show_ : α → Report) (request : LedgerM σ α) :
    Action σ := fun ledger =>
  match request ledger with
  | (.ok a, ledger) => (show_ a, ledger)
  | (.error error, ledger) => (failure error, ledger)

/-- The report of a request that was refused. -/
def refused (error : RequestError) : Report := .fail (.request error)

/-- The report of a request to the store alone: its failures are told without a code. -/
def storeFailed : RequestError → Report
  | .store error => .fail (.store error)
  | error => .fail (.request error)

/-- Records documents one after the other from the place `index` on: the lines about them, and
how many were accepted and rejected. -/
def ingestEach : (index : Nat) → List Json → LedgerM σ (List String × Nat × Nat)
  | _, [] => return ([], 0, 0)
  | index, value :: rest => do
    let answer ← Ledger.attempt (Ledger.submitDocument value)
    let (lines, accepted, rejected) ← ingestEach (index + 1) rest
    match answer with
    | .ok r => return (acceptedLine index r :: lines, accepted + 1, rejected)
    | .error error => return (rejectedLine index error :: lines, accepted, rejected + 1)

/-- The report about a file of events. -/
def ingested (lines : List String) (accepted rejected : Nat) : Report where
  lines := lines ++ [ingestedLine accepted rejected]
  failure := if rejected = 0 then none else some (.rejected rejected)

/-- Records the events of a document: one event, or a list of them. -/
def ingestDocument (value : Json) : Action σ :=
  let values :=
    match value with
    | .list items => items
    | single => [single]
  reporting refused (fun (lines, accepted, rejected) => ingested lines accepted rejected)
    (ingestEach 0 values)

/-- The report about an answer that was given. -/
def resolveFailed : RequestError → Report
  | .followUpFailed outcome cause => ⟨[resolvedOnlyLine outcome], some (.followUp cause)⟩
  | error => refused error

/-- The report about chains that could not be checked. -/
def verifyFailed : RequestError → Report
  | .store (.chainBroken runId eventId sequence found) =>
    ⟨brokenLines runId eventId sequence found, some .brokenChain⟩
  | error => storeFailed error

/-- The records of one run or of all, in read order. -/
def recordsOfRun : Option String → LedgerM σ (List Record)
  | some runId => Ledger.call (EventStore.readRun runId)
  | none => Ledger.call EventStore.readAll

/-- The reports on the chain of one run or of all. -/
def chainsOfRun : Option String → LedgerM σ (List ChainReport)
  | some runId => (fun report => [report]) <$> Ledger.call (checkRun runId)
  | none => Ledger.call checkAllRuns

/-- Either a document or lines. -/
def inForm (json : Bool) (value : Json) (lines : List String) : Report :=
  if json then .document value else .print lines

/-- What a command does on an open ledger; `document` is what the file of events holds. -/
def perform (around : Surroundings) (document : Json) : Command → Action σ
  | .ingest _ => ingestDocument document
  | .events run json =>
    reporting storeFailed
      (fun records => inForm json (.list (records.map Record.toJson)) (eventListing records))
      (recordsOfRun run)
  | .status run json =>
    reporting refused (fun state => inForm json state.toJson (stateLines run state))
      (Ledger.runState run)
  | .waiting json =>
    reporting refused
      (fun waiting =>
        inForm json (.list (waiting.map WaitingRequest.toJson)) (waitingListing waiting))
      Ledger.waitingRequests
  | .register request =>
    reporting refused (fun r => .print [registeredLine r]) (Ledger.register around request)
  | .resolve target resolution =>
    reporting resolveFailed (fun o => .print (resolvedLines o))
      (Ledger.resolve .standard around target resolution)
  | .decision decisionId =>
    reporting refused (fun state => .document state.toJson) (Ledger.decisionState decisionId)
  | .verify run =>
    reporting verifyFailed (fun reports => .print (intactLines reports)) (chainsOfRun run)
  | .trail decisionId =>
    reporting refused (fun trail => .document trail.toJson) (Ledger.decisionTrail decisionId)

end

/-! ## On the files of a project -/

/-- What lasts from one command to the next: the files, and how many tokens have been drawn. -/
structure Desk where
  files : Files
  drawn : Nat
  deriving DecidableEq, Repr, Inhabited

/-- The document that a command needs besides the ledger: what the file of events holds. -/
def documentOf (files : Files) : Command → Except Failure Json
  | .ingest path =>
    match files.readText? path with
    | none => .error (.unreadable path)
    | some content =>
      match Json.parse? content with
      | .ok value => .ok value
      | .error _ => .error (.notJson path)
  | _ => .ok .null

/-- The files with the folder of the ledger made, and what went wrong on the way. -/
def withFolder (files : Files) (database : String) : Option Failure × Files :=
  match parentPath? database with
  | none => (none, files)
  | some folder =>
    match files.makeFolder folder with
    | (true, files) => (none, files)
    | (false, files) => (some (.noFolder folder), files)

/-- Carries out a command. -/
def execute (around : Surroundings) (config : Config) (command : Command) (desk : Desk) :
    Report × Desk :=
  match documentOf desk.files command with
  | .error failure => (.fail failure, desk)
  | .ok document =>
    match withFolder desk.files config.database with
    | (some failure, files) => (.fail failure, { desk with files := files })
    | (none, files) =>
      match files.openLedger config.database with
      | (.error error, files) => (.fail (.store error), { desk with files := files })
      | (.ok table, files) =>
        let (report, ledger) := perform around document command
          (⟨.ofTable table (files.isReadOnlyLedger config.database), desk.drawn⟩ :
            Ledger ProtectedStore)
        (report, ⟨files.saveLedger config.database ledger.store.store.table, ledger.drawn⟩)

end RunLedger.Console
