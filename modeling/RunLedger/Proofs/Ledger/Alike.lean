/-
  Proofs/Ledger/Alike.lean --- ledgers that cannot be told apart.

  WHAT THIS FILE IS FOR.  Whatever is asked of two ledgers is answered alike, now and
  later, if their stores answer each call alike and as many tokens have been drawn.
  It is said piece by piece, of the requests that put something on record and of
  those that only ask (`Inquiry`).  A strategy may look at the store; then what it
  describes must not depend on more than the store tells.
-/
import RunLedger.Audit.Trail
import RunLedger.Proofs.Ledger.Operation
import RunLedger.Proofs.Store.Alike

set_option autoImplicit false

namespace RunLedger

/-- In stores that are alike the strategies describe the same events, and leave the stores alike. -/
def Strategies.DescribeAlike {σ : Type} (strategies : Strategies σ) (same : σ → σ → Prop) : Prop :=
  ∀ workflow strategy, strategies.find? workflow = some strategy →
    ∀ context s t, same s t →
      (strategy context t).1 = (strategy context s).1 ∧
        same (strategy context s).2 (strategy context t).2

namespace Ledger

variable {σ α : Type} {same : σ → σ → Prop}

/-- Two ledgers have stores that are alike, and as many tokens have been drawn. -/
structure Alike (same : σ → σ → Prop) (first second : Ledger σ) : Prop where
  store : same first.store second.store
  drawn : second.drawn = first.drawn

/-! ## Pieces of requests -/

theorem answersAlike_call {c : StoreM σ α} (h : AnswersAlike same c) :
    AnswersAlike (Alike same) (call c) := by
  intro first second halike
  obtain ⟨hanswer, hafter⟩ := h first.store second.store halike.store
  unfold call
  rcases hfirst : c first.store with ⟨answer, next⟩
  rcases hsecond : c second.store with ⟨answer', next'⟩
  rw [hfirst, hsecond] at hanswer hafter
  obtain rfl : answer' = answer := hanswer
  cases answer' with
  | error error => exact ⟨rfl, hafter, halike.drawn⟩
  | ok a => exact ⟨rfl, hafter, halike.drawn⟩

theorem answersAlike_attempt {x : LedgerM σ α} (h : AnswersAlike (Alike same) x) :
    AnswersAlike (Alike same) (attempt x) := by
  intro first second halike
  obtain ⟨hanswer, hafter⟩ := h first second halike
  exact ⟨congrArg Except.ok hanswer, hafter⟩

theorem answersAlike_adapt {x : LedgerM σ α} (h : AnswersAlike (Alike same) x)
    (f : RequestError → RequestError) :
    AnswersAlike (Alike same) (ExceptT.adapt f x : LedgerM σ α) := by
  intro first second halike
  obtain ⟨hanswer, hafter⟩ := h first second halike
  exact ⟨congrArg (Except.mapError f) hanswer, hafter⟩

theorem answersAlike_readClock (around : Surroundings) :
    AnswersAlike (Alike same) (readClock around) := by
  intro first second halike
  refine ⟨?_, halike⟩
  unfold readClock
  rw [halike.drawn]

theorem answersAlike_drawToken (around : Surroundings) :
    AnswersAlike (Alike same) (drawToken around) := by
  intro first second halike
  refine ⟨?_, halike.store, congrArg (· + 1) halike.drawn⟩
  unfold drawToken
  rw [halike.drawn]

theorem answersAlike_stateOf (records : List Record) :
    AnswersAlike (Alike same) (stateOf records) := by
  unfold stateOf
  split
  · exact .pure _
  · exact .throw _

theorem answersAlike_refuseRepetition (decisionId : String) (records : List Record) :
    AnswersAlike (Alike same) (refuseRepetition decisionId records) := by
  unfold refuseRepetition
  split
  · exact .throw _
  · exact .pure _

theorem answersAlike_requireOpen (target : Record) (history : List Record) :
    AnswersAlike (Alike same) (requireOpen target history) := by
  unfold requireOpen
  dsimp only
  split
  · rw [throw_bind]
    exact .throw _
  · refine (answersAlike_stateOf history).bind fun state => ?_
    split
    · exact .pure _
    · exact .throw _

end Ledger

variable {σ : Type} [EventStore σ] {same : σ → σ → Prop}

namespace CallsAlike

open Ledger (Alike answersAlike_call answersAlike_attempt answersAlike_stateOf)

variable (h : CallsAlike σ same)

include h

/-! ## Asking -/

theorem ledger_readRun (runId : String) :
    AnswersAlike (Alike same) (Ledger.call (EventStore.readRun runId : StoreM σ _)) :=
  answersAlike_call (h.readRun runId)

theorem ledger_readAll :
    AnswersAlike (Alike same) (Ledger.call (EventStore.readAll : StoreM σ _)) :=
  answersAlike_call h.readAll

theorem recordsOfDecision (decisionId : String) :
    AnswersAlike (Alike same) (Ledger.recordsOfDecision decisionId : LedgerM σ _) :=
  h.ledger_readAll.bind fun _ => .pure _

theorem runState (runId : String) :
    AnswersAlike (Alike same) (Ledger.runState runId : LedgerM σ _) := by
  refine (h.ledger_readRun runId).bind fun records => ?_
  dsimp only
  split
  · rw [Ledger.throw_bind]
    exact .throw _
  · exact answersAlike_stateOf records

theorem decisionState (decisionId : String) :
    AnswersAlike (Alike same) (Ledger.decisionState decisionId : LedgerM σ _) := by
  refine (h.recordsOfDecision _).bind fun records => ?_
  split
  · exact .pure _
  · exact .throw _

theorem waitingIn (runIds : List String) :
    AnswersAlike (Alike same) (Ledger.waitingIn runIds : LedgerM σ _) := by
  induction runIds with
  | nil => exact .pure _
  | cons runId rest ih =>
    exact (h.ledger_readRun runId).bind fun records =>
      (answersAlike_stateOf records).bind fun state => ih.bind fun waiting => .pure _

theorem waitingRequests :
    AnswersAlike (Alike same) (Ledger.waitingRequests : LedgerM σ _) :=
  h.ledger_readAll.bind fun all => (h.waitingIn (runIdsOf all)).bind fun _ => .pure _

theorem decisionTrail (decisionId : String) :
    AnswersAlike (Alike same) (Ledger.decisionTrail decisionId : LedgerM σ _) := by
  refine (h.recordsOfDecision _).bind fun records => ?_
  split
  · exact .throw _
  · exact (answersAlike_call (h.checkRun _)).bind fun _ => .pure _
  · exact .throw _

/-! ## Recording -/

theorem submit (event : Event) :
    AnswersAlike (Alike same) (Ledger.submit event : LedgerM σ _) := by
  unfold Ledger.submit
  dsimp only
  split
  · refine (h.ledger_readRun _).bind fun history => ?_
    split
    · exact answersAlike_call (h.append _)
    · exact .throw _
  · exact .throw _

theorem submitDocument (value : Json) :
    AnswersAlike (Alike same) (Ledger.submitDocument value : LedgerM σ _) := by
  unfold Ledger.submitDocument
  split
  · exact h.submit _
  · exact .throw _

theorem register (around : Surroundings) (request : ApprovalRequest) :
    AnswersAlike (Alike same) (Ledger.register around request : LedgerM σ _) := by
  unfold Ledger.register
  dsimp only
  split
  · rw [Ledger.throw_bind]
    exact .throw _
  · refine (h.recordsOfDecision _).bind fun records => ?_
    refine (Ledger.answersAlike_refuseRepetition _ records).bind fun _ => ?_
    refine (h.ledger_readRun _).bind fun history => ?_
    refine (Ledger.answersAlike_readClock around).bind fun now => ?_
    refine (Ledger.answersAlike_drawToken around).bind fun token => ?_
    exact (Ledger.answersAlike_adapt (h.submit _) _).bind fun r => .pure _

theorem targetEvent (target : ApprovalTarget) :
    AnswersAlike (Alike same) (Ledger.targetEvent target : LedgerM σ _) := by
  cases target with
  | event eventId => exact .pure _
  | decision decisionId =>
    refine (h.recordsOfDecision _).bind fun carriers => ?_
    dsimp only
    split
    · rw [Ledger.throw_bind]
      exact .throw _
    · split
      · exact .throw _
      · exact .pure _
      · exact .throw _

theorem openRequest (eventId : String) :
    AnswersAlike (Alike same) (Ledger.openRequest eventId : LedgerM σ _) := by
  have hrecord : AnswersAlike (Alike same) (Ledger.recordOfEvent eventId : LedgerM σ _) := by
    refine h.ledger_readAll.bind fun all => ?_
    split
    · exact .throw _
    · exact .pure _
    · exact .throw _
  refine hrecord.bind fun target => ?_
  dsimp only
  split
  · rw [Ledger.throw_bind]
    exact .throw _
  · exact (h.ledger_readRun _).bind fun history =>
      (Ledger.answersAlike_requireOpen target history).bind fun _ => .pure _

theorem recordAnswer (around : Surroundings) (eventId : String) (resolution : Resolution) :
    AnswersAlike (Alike same) (Ledger.recordAnswer around eventId resolution : LedgerM σ _) := by
  refine (h.openRequest eventId).bind fun (request, history, before) => ?_
  refine (Ledger.answersAlike_readClock around).bind fun now => ?_
  exact (Ledger.answersAlike_drawToken around).bind fun token =>
    (h.submit _).bind fun recorded => .pure _

/-! ## After an answer -/

theorem submitEach (events : List Event) :
    AnswersAlike (Alike same) (Ledger.submitEach events : LedgerM σ _) := by
  induction events with
  | nil => exact .pure _
  | cons event rest ih =>
    refine (answersAlike_attempt (h.submit event)).bind fun answer => ?_
    cases answer with
    | error error => exact .pure _
    | ok r => exact ih.bind fun _ => .pure _

theorem recordFailure (around : Surroundings) (request : Record) (cause : RequestError) :
    AnswersAlike (Alike same) (Ledger.recordFailure around request cause : LedgerM σ _) := by
  refine (answersAlike_attempt (h.ledger_readRun _)).bind fun answer => ?_
  cases answer with
  | error error => exact .pure _
  | ok history =>
    refine (Ledger.answersAlike_readClock around).bind fun now => ?_
    exact (Ledger.answersAlike_drawToken around).bind fun token =>
      (answersAlike_attempt (h.submit _)).bind fun _ => .pure _

theorem statusOr (runId : String) (otherwise : RunStatus) :
    AnswersAlike (Alike same) (Ledger.statusOr runId otherwise : LedgerM σ _) := by
  refine (answersAlike_attempt ((h.ledger_readRun runId).bind answersAlike_stateOf)).bind
    fun answer => ?_
  cases answer with
  | error error => exact .pure _
  | ok state => exact .pure _

variable {strategies : Strategies σ} (hstrategies : strategies.DescribeAlike same)

include hstrategies

theorem continueAnswer (context : FollowUpContext) (answer : Answer) :
    AnswersAlike (Alike same) (Ledger.continueAnswer strategies context answer) := by
  cases answer with
  | rejected => exact .pure _
  | approved =>
    show AnswersAlike (Alike same) (Ledger.continueAfter strategies context)
    unfold Ledger.continueAfter
    split
    · exact .pure _
    · rename_i strategy hfound
      obtain ⟨workflow, -, hstrategy⟩ := Option.bind_eq_some_iff.mp hfound
      have hrun : AnswersAlike (Alike same) (Ledger.runStrategy strategy context) := by
        intro first second halike
        obtain ⟨hevents, hafter⟩ :=
          hstrategies workflow strategy hstrategy context first.store second.store halike.store
        exact ⟨congrArg Except.ok hevents, hafter, halike.drawn⟩
      exact hrun.bind fun events => h.submitEach events

theorem conclude (around : Surroundings) (target recorded : Record) (before : RunStatus)
    (answer : Answer) :
    AnswersAlike (Alike same)
      (Ledger.conclude strategies around target recorded before answer) := by
  refine (h.continueAnswer hstrategies _ answer).bind fun (ids, failure) => ?_
  have hnote : AnswersAlike (Alike same) (Ledger.noteFailure around target failure) := by
    cases failure with
    | some cause => exact h.recordFailure around target cause
    | none => exact .pure _
  refine hnote.bind fun _ => (h.statusOr _ _).bind fun after => ?_
  cases failure with
  | some cause => exact .throw _
  | none => exact .pure _

theorem resolve (around : Surroundings) (target : ApprovalTarget) (resolution : Resolution) :
    AnswersAlike (Alike same) (Ledger.resolve strategies around target resolution) :=
  (h.targetEvent target).bind fun eventId => (h.recordAnswer around eventId resolution).bind
    fun (request, recorded, before) =>
      h.conclude hstrategies around request recorded before resolution.answer

end CallsAlike

/-! ## Requests in any order -/

/-- A request that only asks. -/
inductive Inquiry : Type → Type
  /-- the records of all runs in read order -/
  | readAll : Inquiry (List Record)
  /-- the records of a run in read order -/
  | readRun (runId : String) : Inquiry (List Record)
  /-- the records of a run in the order of their places -/
  | readChain (runId : String) : Inquiry (List Record)
  /-- where a run stands -/
  | runState (runId : String) : Inquiry RunState
  /-- where a policy decision stands -/
  | decisionState (decisionId : String) : Inquiry DecisionState
  /-- the requests that wait for an answer -/
  | waitingRequests : Inquiry (List WaitingRequest)
  /-- the trail of a policy decision -/
  | decisionTrail (decisionId : String) : Inquiry DecisionTrail
  /-- a check of one run -/
  | checkRun (runId : String) : Inquiry ChainReport
  /-- a check of all runs -/
  | checkAllRuns : Inquiry (List ChainReport)

/-- Asks. -/
def Inquiry.perform : {α : Type} → Inquiry α → LedgerM σ α
  | _, readAll => Ledger.call EventStore.readAll
  | _, readRun runId => Ledger.call (EventStore.readRun runId)
  | _, readChain runId => Ledger.call (EventStore.readChain runId)
  | _, runState runId => Ledger.runState runId
  | _, decisionState decisionId => Ledger.decisionState decisionId
  | _, waitingRequests => Ledger.waitingRequests
  | _, decisionTrail decisionId => Ledger.decisionTrail decisionId
  | _, checkRun runId => Ledger.call (RunLedger.checkRun runId)
  | _, checkAllRuns => Ledger.call RunLedger.checkAllRuns

/-- The strategies of the request, if it has any, describe the same events in stores that are
alike. -/
def Operation.DescribesAlike (same : σ → σ → Prop) : Operation σ → Prop
  | .resolve strategies .. => strategies.DescribeAlike same
  | _ => True

namespace CallsAlike

open Ledger (Alike answersAlike_call)

variable (h : CallsAlike σ same)

include h

theorem inquiry {α : Type} (inquiry : Inquiry α) :
    AnswersAlike (Alike same) (inquiry.perform : LedgerM σ α) := by
  cases inquiry with
  | readAll => exact h.ledger_readAll
  | readRun runId => exact h.ledger_readRun runId
  | readChain runId => exact answersAlike_call (h.readChain runId)
  | runState runId => exact h.runState runId
  | decisionState decisionId => exact h.decisionState decisionId
  | waitingRequests => exact h.waitingRequests
  | decisionTrail decisionId => exact h.decisionTrail decisionId
  | checkRun runId => exact answersAlike_call (h.checkRun runId)
  | checkAllRuns => exact answersAlike_call h.checkAllRuns

theorem operation {operation : Operation σ} (hdescribes : operation.DescribesAlike same) :
    AnswersAlike (Alike same) operation.perform := by
  cases operation with
  | submit event => exact (h.submit event).bind fun _ => .pure _
  | submitDocument value => exact (h.submitDocument value).bind fun _ => .pure _
  | register around request => exact (h.register around request).bind fun _ => .pure _
  | resolve strategies describe around target resolution =>
    exact (h.resolve hdescribes around target resolution).bind fun _ => .pure _

/-- Ledgers that are alike answer any requests, one after the other, alike, and are alike then. -/
theorem calls_answer {first second : Ledger σ} (halike : first.Alike same second)
    (operations : List (Operation σ))
    (hdescribe : ∀ operation ∈ operations, operation.DescribesAlike same) :
    (second.calls operations).map Call.answer = (first.calls operations).map Call.answer ∧
      (first.after operations).Alike same (second.after operations) := by
  induction operations generalizing first second with
  | nil => exact ⟨rfl, halike⟩
  | cons operation rest ih =>
    obtain ⟨hanswer, hafter⟩ :=
      h.operation (hdescribe operation List.mem_cons_self) first second halike
    obtain ⟨hanswers, hend⟩ := ih hafter fun o ho => hdescribe o (List.mem_cons_of_mem _ ho)
    refine ⟨?_, hend⟩
    rw [Ledger.calls, Ledger.calls, List.map_cons, List.map_cons]
    exact congrArg₂ List.cons hanswer hanswers

end CallsAlike

end RunLedger
