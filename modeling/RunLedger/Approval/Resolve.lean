/-
  Approval/Resolve.lean --- answering a request.

  WHAT THIS FILE IS FOR.  A request is answered once, while it is the open
  request of its run.  The answer is recorded as an event of that run.  When it
  is an approval, the strategy of the workflow that asked describes what follows;
  if that cannot be recorded, the run is stopped and the caller is told both what
  was recorded and what failed.

  A recorded answer is never lost to the caller: whatever fails after it is
  recorded, the outcome comes back.
-/
import RunLedger.Approval.FollowUp
import RunLedger.Approval.Register

set_option autoImplicit false

namespace RunLedger

open RunLedger.Text (trim)
open RunLedger.Time (Instant)

/-! ## What is recorded -/

namespace Resolution

/-- The reason that is given, unless it is blank. -/
def givenReason? (resolution : Resolution) : Option String :=
  (resolution.reason.map trim).filter fun reason => reason != ""

/-- The event that puts an answer on record. -/
def toEvent (resolution : Resolution) (target : Record) (at_ : Instant) (token : String) : Event :=
  let answer := resolution.answer
  let approver := trim resolution.approverId
  { Event.plain
      ("apr_" ++ target.eventId ++ "_" ++ answer.name ++ "_" ++ at_.unpunctuated ++ "_" ++ token)
      target.runId at_ .approvalResolved .human answer.title
      (resolution.givenReason?.getD (answer.title ++ " by " ++ approver)) with
    confidence := target.event.confidence
    riskLevel := target.event.riskLevel
    requiresApproval := true
    approval := { Approval.resolved answer.status approver at_ with
      decisionId := target.event.decision?
      requestedBy := target.event.approval.requestedBy
      reason := resolution.givenReason? }
    origin := some ⟨approvalWorkflow, answer.step⟩ }

end Resolution

/-- The event that stops a run in which what should follow from an approval could not be
recorded. -/
def failureEvent (request : Record) (cause : RequestError) (at_ : Instant) (token : String) :
    Event :=
  let workflow := request.event.workflow?.getD approvalWorkflow
  { Event.plain ("evt_" ++ workflow ++ "_continuation_error_" ++ token) request.runId at_
      .error .system "Post-approval continuation failed"
      ("Continuation after approval '" ++ request.eventId ++ "' failed: " ++ cause.message) with
    riskLevel := some .high
    evidence := [
      ⟨.log, "Continuation error", "ledger://" ++ request.runId ++ "/" ++ request.eventId⟩]
    origin := some ⟨workflow, "run_stopped"⟩ }

/-! ## Whether a request is answered -/

/-- Whether one of some events answers the request `eventId`, when `unanswered` is the request
that was read last and not answered before them.  An answer belongs to that request; an answer
that this library recorded says in its identifier which request it is for. -/
def isAnsweredFrom (eventId : String) : (unanswered : Option String) → List Record → Bool
  | _, [] => false
  | unanswered, r :: rest =>
    if r.event.isAnswer then
      ("apr_" ++ eventId ++ "_").toList.isPrefixOf r.eventId.toList ||
        unanswered == some eventId || isAnsweredFrom eventId none rest
    else if r.event.isRequest then isAnsweredFrom eventId (some r.eventId) rest
    else isAnsweredFrom eventId unanswered rest

/-- Whether the records of a run hold an answer to the request `eventId`. -/
def isAnswered (eventId : String) (records : List Record) : Bool :=
  isAnsweredFrom eventId none records

namespace Ledger

variable {σ : Type} [EventStore σ]

/-! ## Finding the request -/

/-- The one request that belongs to a policy decision. -/
def requestOfDecision (decisionId : String) : LedgerM σ String := do
  let carriers ← recordsOfDecision decisionId
  if carriers.isEmpty then throw (.approvalNotFound decisionId .decisionId)
  match carriers.filter fun r => r.event.isRequest with
  | [] => throw (.notPending decisionId)
  | [r] => return r.eventId
  | _ => throw (.ambiguousEvent decisionId)

/-- The one record with an identifier. -/
def recordOfEvent (eventId : String) : LedgerM σ Record := do
  let all ← call EventStore.readAll
  match all.filter fun r => r.eventId == eventId with
  | [] => throw (.approvalNotFound eventId .eventId)
  | [r] => return r
  | _ => throw (.ambiguousEvent eventId)

/-- The request that an answer is meant for, by the identifier of its event. -/
def targetEvent : ApprovalTarget → LedgerM σ String
  | .event id => return trim id
  | .decision id => requestOfDecision (trim id)

/-- Refuses to answer what is not the open request of its run, and says what status the run
has. -/
def requireOpen (target : Record) (history : List Record) : LedgerM σ RunStatus := do
  if isAnswered target.eventId history then
    throw (.duplicateApproval target.eventId .resolved)
  let state ← stateOf history
  let isOpen := state.status == .paused &&
    state.pending.any fun pending => pending.eventId == target.eventId
  if isOpen then return state.status else throw (.notPending target.eventId)

/-- The open request `eventId`, the history of its run, and the status that the run has. -/
def openRequest (eventId : String) : LedgerM σ (Record × List Record × RunStatus) := do
  let target ← recordOfEvent eventId
  if !target.event.isRequest then throw (.notPending eventId)
  let history ← call (EventStore.readRun target.runId)
  let before ← requireOpen target history
  return (target, history, before)

/-! ## After the answer -/

/-- Records events one after the other up to the first that is refused: the identifiers of those
recorded, and why the next was refused. -/
def submitEach : List Event → LedgerM σ (List String × Option RequestError)
  | [] => return ([], none)
  | event :: rest => do
    match ← attempt (submit event) with
    | .error error => return ([], some error)
    | .ok r =>
      let (ids, failure) ← submitEach rest
      return (r.eventId :: ids, failure)

/-- Lets a strategy describe what follows. -/
def runStrategy (strategy : Strategy σ) (context : FollowUpContext) : LedgerM σ (List Event) :=
  fun ledger =>
    let (events, store) := strategy context ledger.store
    (.ok events, { ledger with store := store })

/-- Records what follows from an approval. -/
def continueAfter (strategies : Strategies σ) (context : FollowUpContext) :
    LedgerM σ (List String × Option RequestError) := do
  match context.request.event.workflow?.bind strategies.find? with
  | none => return ([], none)
  | some strategy =>
    let events ← runStrategy strategy context
    submitEach events

/-- Puts on record that what should follow from an approval failed, as far as that is
possible. -/
def recordFailure (around : Surroundings) (request : Record) (cause : RequestError) :
    LedgerM σ Unit := do
  match ← attempt (call (EventStore.readRun request.runId)) with
  | .error _ => return ()
  | .ok history =>
    let now ← readClock around
    let token ← drawToken around
    let _ ← attempt (submit (failureEvent request cause (timeAfter history now) token))
    return ()

/-- The status of a run, or a given one if the run cannot be read. -/
def statusOr (runId : String) (otherwise : RunStatus) : LedgerM σ RunStatus := do
  match ← attempt (call (EventStore.readRun runId) >>= stateOf) with
  | .ok state => return state.status
  | .error _ => return otherwise

/-- Records what follows from an answer, which is nothing after a rejection. -/
def continueAnswer (strategies : Strategies σ) (context : FollowUpContext) :
    Answer → LedgerM σ (List String × Option RequestError)
  | .approved => continueAfter strategies context
  | .rejected => return ([], none)

/-- Puts on record why an event that should follow was refused, if one was. -/
def noteFailure (around : Surroundings) (request : Record) : Option RequestError → LedgerM σ Unit
  | some cause => recordFailure around request cause
  | none => return ()

/-- Hands the outcome of an answer back, with why an event that should follow was refused. -/
def handBack (outcome : Outcome) : Option RequestError → LedgerM σ Outcome
  | some cause => throw (.followUpFailed outcome cause)
  | none => return outcome

/-- Lets what follows from an answer follow, once the answer is on record: the status of the run
was `before`, the request is `target` and the answer `recorded`. -/
def conclude (strategies : Strategies σ) (around : Surroundings) (target recorded : Record)
    (before : RunStatus) (answer : Answer) : LedgerM σ Outcome := do
  let (followUpIds, failure) ← continueAnswer strategies ⟨target, recorded⟩ answer
  noteFailure around target failure
  let after ← statusOr recorded.runId before
  handBack {
    eventId := recorded.eventId
    targetEventId := target.eventId
    decisionId := target.event.decision?
    runId := recorded.runId
    answer := answer
    resolvedAt := recorded.timestamp
    before := before
    after := after
    followUpIds := followUpIds } failure

/-! ## Answering -/

/-- Puts the answer to the open request `eventId` on record: the request, the recorded answer, and
the status that the run had before it. -/
def recordAnswer (around : Surroundings) (eventId : String) (resolution : Resolution) :
    LedgerM σ (Record × Record × RunStatus) := do
  let (target, history, before) ← openRequest eventId
  let now ← readClock around
  let token ← drawToken around
  let recorded ← submit (resolution.toEvent target (timeAfter history now) token)
  return (target, recorded, before)

/-- Answers a request. -/
def resolve (strategies : Strategies σ) (around : Surroundings) (target : ApprovalTarget)
    (resolution : Resolution) : LedgerM σ Outcome := do
  let eventId ← targetEvent target
  let (request, recorded, before) ← recordAnswer around eventId resolution
  conclude strategies around request recorded before resolution.answer

end Ledger

end RunLedger
