/-
  Console/Command.lean --- the commands of the program.

  WHAT THIS FILE IS FOR.  The program records events from a file, lists them,
  and asks for, answers and audits approvals.  A command is a value; how it is
  written on a command line is said here, and what it does elsewhere.
-/
import RunLedger.Approval.Answer
import RunLedger.Console.Argument

set_option autoImplicit false

namespace RunLedger

/-- The risk level that a word names, blanks and the case of its letters aside. -/
def RiskLevel.ofWord? (raw : String) : Option RiskLevel :=
  RiskLevel.all.find? fun level => level.name == Answer.plainWord raw

namespace Console

/-- A command. -/
inductive Command where
  /-- records the events in a file -/
  | ingest (path : String)
  /-- lists events, of one run or of all -/
  | events (run : Option String) (json : Bool)
  /-- shows where a run stands -/
  | status (run : String) (json : Bool)
  /-- lists the requests that wait for an answer -/
  | waiting (json : Bool)
  /-- asks for an approval -/
  | register (request : ApprovalRequest)
  /-- answers a request -/
  | resolve (target : ApprovalTarget) (resolution : Resolution)
  /-- shows where a policy decision stands -/
  | decision (decisionId : String)
  /-- checks the chain of one run or of all -/
  | verify (run : Option String)
  /-- shows the verified trail of a policy decision -/
  | trail (decisionId : String)
  deriving DecidableEq, Repr, Inhabited

namespace Command

/-! ## Approvals -/

/-- The request that options ask for. -/
def requestOf (given : Given) : Except UsageFault ApprovalRequest := do
  let decisionId ← given.value "decision"
  let runId ← given.value "run"
  let title ← given.value "title"
  let details ← given.value "details"
  let riskLevel ←
    if given.has "risk" then given.read "risk" RiskLevel.ofWord? else pure RiskLevel.high
  return {
    decisionId := decisionId
    runId := runId
    requestedBy := (given.value? "requested-by").getD "agent"
    title := title
    details := details
    riskLevel := riskLevel
    reason := given.value? "reason" }

/-- The request that options mean; exactly one of the two identifiers is given. -/
def targetOf (given : Given) : Except UsageFault ApprovalTarget :=
  match given.value? "event-id", given.value? "decision-id" with
  | some id, none => .ok (.event id)
  | none, some id => .ok (.decision id)
  | some _, some _ => .error .conflict
  | none, none => .error .missingRequired

/-- The answer that options give. -/
def resolutionOf (given : Given) : Except UsageFault Resolution := do
  let answer ← given.read "decision" Answer.ofWord?
  let approverId ← given.value "approver"
  return ⟨answer, approverId, given.value? "reason"⟩

/-- The commands about approvals. -/
def approvalVerbs : List (Verb Command) := [
  { name := "list"
    grammar := ⟨[.flag "json"], 0⟩
    build := fun given => .ok (.waiting (given.has "json")) },
  { name := "register"
    grammar := ⟨[.any "decision", .any "run", .any "requested-by", .any "title",
      .any "details", .of "risk" RiskLevel.ofWord?, .any "reason"], 0⟩
    build := fun given => (requestOf given).map .register },
  { name := "resolve"
    grammar := ⟨[.any "event-id", .any "decision-id", .of "decision" Answer.ofWord?,
      .any "approver", .any "reason"], 0⟩
    build := fun given => do
      let target ← targetOf given
      let resolution ← resolutionOf given
      return .resolve target resolution },
  { name := "state"
    grammar := ⟨[], 1⟩
    build := fun given => given.operand.map .decision }]

/-- The command about approvals that arguments stand for. -/
def ofApprovalArguments (arguments : List String) : Except UsageFault Command :=
  choose approvalVerbs arguments

/-! ## Audits -/

/-- The commands about audits. -/
def auditVerbs : List (Verb Command) := [
  { name := "verify"
    grammar := ⟨[.any "run"], 0⟩
    build := fun given => .ok (.verify (given.value? "run")) },
  { name := "export"
    grammar := ⟨[], 1⟩
    build := fun given => given.operand.map .trail }]

/-- The command about audits that arguments stand for. -/
def ofAuditArguments (arguments : List String) : Except UsageFault Command :=
  choose auditVerbs arguments

/-! ## All commands -/

/-- The commands about events and runs. -/
def eventVerbs : List (Verb Command) := [
  { name := "ingest"
    grammar := ⟨[], 1⟩
    build := fun given => given.operand.map .ingest },
  { name := "events"
    grammar := ⟨[.any "run", .flag "json"], 0⟩
    build := fun given => .ok (.events (given.value? "run") (given.has "json")) },
  { name := "status"
    grammar := ⟨[.flag "json"], 1⟩
    build := fun given => given.operand.map fun run => .status run (given.has "json") }]

/-- The command that arguments stand for. -/
def ofArguments : List String → Except UsageFault Command
  | "approval" :: rest => ofApprovalArguments rest
  | "audit" :: rest => ofAuditArguments rest
  | arguments => choose eventVerbs arguments

end Command

end Console

end RunLedger
