/-
  Ledger/Error.lean --- why a request to the ledger is refused.

  WHAT THIS FILE IS FOR.  Besides the failures of its store, the ledger refuses
  what breaks its rules and what does not fit the approvals on record.  The
  causes are listed here with their kinds, codes and sentences.
-/
import RunLedger.Approval.Answer
import RunLedger.Run.Gate
import RunLedger.Store.Fault

set_option autoImplicit false

namespace RunLedger

/-- By what an approval was looked up. -/
inductive LookupKey where
  | eventId
  | decisionId
  deriving DecidableEq, Repr, Inhabited

/-- The written name of a key. -/
def LookupKey.name : LookupKey → String
  | eventId => "event_id"
  | decisionId => "decision_id"

/-- Why an approval is there already. -/
inductive Repetition where
  /-- it has been asked for -/
  | pending
  /-- it has been answered -/
  | resolved
  /-- the event that would record it is there -/
  | exists
  deriving DecidableEq, Repr, Inhabited

/-- The end of the sentence about an approval that is there already. -/
def Repetition.message : Repetition → String
  | pending => "is already pending"
  | resolved => "has already been resolved"
  | .exists => "already exists"

/-- Why a request to the ledger is refused. -/
inductive RequestError where
  /-- the store refuses or fails -/
  | store (error : StoreError)
  /-- the event breaks rules -/
  | rules (violations : List Violation)
  /-- the run has no status -/
  | conflict (conflict : RunConflict)
  /-- the run has no events -/
  | runNotFound (runId : String)
  /-- no event carries the identifier -/
  | approvalNotFound (id : String) (key : LookupKey)
  /-- more than one event carries the identifier -/
  | ambiguousEvent (id : String)
  /-- the event is not the open request of its run -/
  | notPending (id : String)
  /-- the approval is there already -/
  | duplicateApproval (id : String) (repetition : Repetition)
  /-- the policy decision occurs in more than one run -/
  | scatteredDecision (decisionId : String) (runIds : List String)
  /-- the answer is recorded, but what should follow from it is not -/
  | followUpFailed (outcome : Outcome) (cause : RequestError)
  deriving DecidableEq, Repr, Inhabited

namespace RequestError

/-- The code of an error. -/
def code : RequestError → String
  | store error => error.code
  | rules _ => "BUSINESS_RULE_VIOLATION"
  | conflict c => c.code.name
  | runNotFound _ => "RUN_NOT_FOUND"
  | approvalNotFound .. => "APPROVAL_NOT_FOUND"
  | ambiguousEvent _ => "AMBIGUOUS_EVENT_ID"
  | notPending _ => "NO_PENDING_APPROVAL"
  | duplicateApproval .. => "DUPLICATE_APPROVAL"
  | scatteredDecision .. => "CROSS_RUN_DECISION_TRACE"
  | followUpFailed .. => "STORAGE_WRITE_ERROR"

/-- The kind of failure that an error is. -/
def kind : RequestError → FailureKind
  | store error => error.kind
  | conflict _ => .consistency
  | scatteredDecision .. => .consistency
  | followUpFailed .. => .storage
  | rules _ => .caller
  | runNotFound _ => .caller
  | approvalNotFound .. => .caller
  | ambiguousEvent _ => .caller
  | notPending _ => .caller
  | duplicateApproval .. => .caller

/-- The sentence about an error. -/
def message : RequestError → String
  | store error => error.message
  | rules violations =>
    "event payload violates workflow governance rules (" ++ toString violations.length ++
      " violation(s))"
  | conflict c => c.describe
  | runNotFound runId => "no events found for run '" ++ runId ++ "'"
  | approvalNotFound id key => "approval " ++ key.name ++ " '" ++ id ++ "' was not found"
  | ambiguousEvent id => "event ID '" ++ id ++ "' exists in multiple runs"
  | notPending id => "'" ++ id ++ "' is not the currently pending approval"
  | duplicateApproval id repetition => "approval '" ++ id ++ "' " ++ repetition.message
  | scatteredDecision decisionId runIds =>
    "decision '" ++ decisionId ++ "' spans multiple runs (" ++ String.intercalate ", " runIds ++
      ") and cannot be exported deterministically"
  | followUpFailed outcome cause =>
    "post-approval continuation failed after resolution '" ++ outcome.eventId ++ "': " ++
      cause.message

/-- The sentence about an error behind its code, and a line for each broken rule or problem. -/
def report (error : RequestError) : String :=
  let head := "[" ++ error.code ++ "] " ++ error.message
  match error with
  | rules violations =>
    head ++ String.join (violations.map fun v =>
      "\n  " ++ v.rule.id ++ " " ++ v.code.name ++ " at " ++ v.path ++ ": " ++ v.message)
  | store (.schemaValidation problems) =>
    head ++ String.join (problems.map fun p =>
      "\n  " ++ p.code.name ++ " at " ++ p.path ++ ": " ++ p.message)
  | _ => head

end RequestError

end RunLedger
