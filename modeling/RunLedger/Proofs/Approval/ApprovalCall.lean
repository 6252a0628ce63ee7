/-
  Proofs/Approval/ApprovalCall.lean --- what asking and answering put on record.

  WHAT THIS FILE IS FOR.  A call that asks for an approval, or answers a request of
  the workflow that approvals are recorded under, does one of three things: it is
  refused and the store stays as it is, it opens a request that nobody has asked for
  before, or it closes the open request of a run.  `Call.Takes` lists them with all
  that is recorded then, and what is said of such calls rests on it.
-/
import RunLedger.Proofs.Approval.StoppedRun
import RunLedger.Proofs.Approval.WaitingList
import RunLedger.Proofs.Ledger.Legible
import RunLedger.Proofs.Ledger.NoTrace
import RunLedger.Proofs.Run.Diagram

set_option autoImplicit false

namespace RunLedger

open RunLedger.Text (trim)

/-! ## The event that puts a request on record -/

namespace ApprovalRequest

variable {request : ApprovalRequest} {at_ : Time.Instant} {token : String}

theorem decision?_toEvent (hdecision : trim request.decisionId ≠ "") :
    (request.toEvent at_ token).normalized.decision? = some (trim request.decisionId) := by
  have hcarried : (request.toEvent at_ token).normalized.decision? =
      (some (trim request.decisionId)).filter fun id => id != "" := rfl
  rw [hcarried, Option.filter_some, if_pos (by simpa using hdecision)]

theorem isRequest_toEvent : (request.toEvent at_ token).normalized.isRequest = true := by
  have hkind : (request.toEvent at_ token).normalized.kind = .approvalRequested := rfl
  rw [Event.isRequest, hkind]
  rfl

theorem isAnswer_toEvent : (request.toEvent at_ token).normalized.isAnswer = false := by
  have hkind : (request.toEvent at_ token).normalized.kind = .approvalRequested := rfl
  have hstatus : (request.toEvent at_ token).normalized.approval.status = .pending := rfl
  rw [Event.isAnswer, hkind, hstatus]
  simp [ApprovalStatus.isResolved]

theorem ending?_toEvent : (request.toEvent at_ token).normalized.ending? = none := by
  have hkind : (request.toEvent at_ token).normalized.kind = .approvalRequested := rfl
  have hstep : (request.toEvent at_ token).normalized.step? = some "approval_requested" := rfl
  rw [Event.ending?, hkind, hstep]
  rfl

end ApprovalRequest

/-! ## The event that puts an answer on record -/

namespace Resolution

variable {resolution : Resolution} {target : Record} {at_ : Time.Instant} {token : String}

theorem decision?_toEvent :
    (resolution.toEvent target at_ token).normalized.decision? = target.event.decision? := by
  have hcarried : (resolution.toEvent target at_ token).normalized.decision? =
      target.event.decision?.filter fun id => id != "" := rfl
  rw [hcarried, Event.decision?]
  cases target.event.approval.decisionId with
  | none => rfl
  | some id => by_cases hempty : (id != "") = true <;> simp [Option.filter, hempty]

theorem isRequest_toEvent :
    (resolution.toEvent target at_ token).normalized.isRequest = false := by
  have hkind : (resolution.toEvent target at_ token).normalized.kind = .approvalResolved := rfl
  have hstatus : (resolution.toEvent target at_ token).normalized.approval.status =
      resolution.answer.status := rfl
  rw [Event.isRequest, hkind, hstatus]
  cases resolution.answer <;> simp [Answer.status]

end Resolution

namespace MemoryStore

/-! ## What is recorded -/

/-- No event on record, of whatever run, asks or answers the policy decision. -/
def IsUndecided (store : MemoryStore) (decisionId : String) : Prop :=
  ∀ r ∈ store.records, r.isSignal = true → r.carries decisionId = false

instance (store : MemoryStore) (decisionId : String) : Decidable (store.IsUndecided decisionId) :=
  inferInstanceAs (Decidable (∀ r ∈ store.records, _ → _))

/-- The record `r`, with which the store `s` becomes `t`, asks for an approval of a policy decision
that nothing on record asks or answers. -/
structure Asks (s : MemoryStore) (decisionId : String) (r : Record) (t : MemoryStore) : Prop where
  accepted : s.Accepts r t
  isNew : ∀ x ∈ s.records, x.isSignal = true → x.carries decisionId = false
  decision : r.event.decision? = some decisionId
  request : r.event.isRequest = true
  noAnswer : r.event.isAnswer = false
  status : r.event.approval.status = .pending
  workflow : r.event.workflow? = some approvalWorkflow
  /-- the run waits for nothing else -/
  free : ∃ p, RunState.ofRecords (s.readOrder r.runId) = .ok p ∧ p.pending = none
  waits : t.WaitsOn r.runId r.event.toOpenRequest r

/-- The record `recorded`, with which the store `s` becomes `t`, is an answer to the open request
that `asked` has put on record. -/
structure Settles (s : MemoryStore) (asked : Record) (answer : Answer) (recorded : Record)
    (t : MemoryStore) : Prop where
  closes : ∃ request, s.WaitsOn asked.runId request asked ∧
    s.Closes asked.runId request recorded t
  run : recorded.runId = asked.runId
  decision : recorded.event.decision? = asked.event.decision?
  noRequest : recorded.event.isRequest = false
  isAnswer : recorded.event.isAnswer = true
  status : recorded.event.approval.status = answer.status
  workflow : recorded.event.workflow? = some approvalWorkflow

/-- All that is on record is recorded under the workflow of approvals. -/
def OnlyApprovals (store : MemoryStore) : Prop :=
  ∀ r ∈ store.records, r.event.workflow? = some approvalWorkflow

theorem Accepts.mem_records {s t : MemoryStore} {r x : Record} (h : s.Accepts r t)
    (hs : s.Sound) : x ∈ t.records ↔ x ∈ s.records ∨ x = r := by
  obtain ⟨⟨log, hlog⟩, -⟩ := hs
  rw [(hlog.append h.appended).mem_records, hlog.mem_records, List.mem_append,
    List.mem_singleton]

theorem OnlyApprovals.accepts {s t : MemoryStore} {r : Record} (h : s.OnlyApprovals)
    (hs : s.Sound) (haccepts : s.Accepts r t)
    (hworkflow : r.event.workflow? = some approvalWorkflow) : t.OnlyApprovals := by
  intro x hx
  rcases (haccepts.mem_records hs).mp hx with hx | rfl
  · exact h x hx
  · exact hworkflow

end MemoryStore

namespace Ledger

variable {ledger next : Ledger MemoryStore} {around : Surroundings}

/-! ## Asking -/

theorem refuseRepetition_eq_ok_iff {decisionId : String} {records : List Record} :
    refuseRepetition decisionId records ledger = (.ok (), next) ↔
      next = ledger ∧ ∀ r ∈ records, r.isSignal = false := by
  have hnone : (records.filter Record.isSignal).getLast? = none ↔
      ∀ r ∈ records, r.isSignal = false := by
    simp only [List.getLast?_eq_none_iff, List.filter_eq_nil_iff, Bool.not_eq_true]
  rw [← hnone]
  unfold refuseRepetition
  cases (records.filter Record.isSignal).getLast? with
  | some r =>
    constructor
    · exact fun h => nomatch (Prod.mk.inj h).1
    · exact fun h => nomatch h.2
  | none =>
    constructor
    · exact fun h => ⟨(Prod.mk.inj h).2.symm, rfl⟩
    · rintro ⟨rfl, -⟩
      rfl

/-- The event with which the ledger puts a request for approval on record. -/
def requestFor (ledger : Ledger MemoryStore) (around : Surroundings) (request : ApprovalRequest) :
    Event :=
  (request.toEvent
    (timeAfter (ledger.store.readOrder (trim request.runId)) (around.now (ledger.drawn + 1)))
    (around.token (ledger.drawn + 1))).normalized

/-- A request is registered exactly if it belongs to a policy decision that no event on record asks
or answers, and the event for it is accepted. -/
theorem register_eq_ok_iff {request : ApprovalRequest} {registration : Registration} :
    register around request ledger = (.ok registration, next) ↔
      trim request.decisionId ≠ "" ∧ ledger.store.IsUndecided (trim request.decisionId) ∧
      ∃ r, r.event = ledger.requestFor around request ∧ ledger.store.Accepts r next.store ∧
        next.drawn = ledger.drawn + 1 ∧
        registration = ⟨trim request.decisionId, r.eventId, r.runId, r.event.approval.status,
          r.timestamp⟩ := by
  have hnew : (∀ x ∈ (Record.sortForReading ledger.store.records).filter
        fun x => x.carries (trim request.decisionId), x.isSignal = false) ↔
      ledger.store.IsUndecided (trim request.decisionId) := by
    unfold MemoryStore.IsUndecided
    simp only [List.mem_filter, Record.mem_sortForReading]
    refine forall_congr' fun x => ?_
    cases x.isSignal <;> cases x.carries (trim request.decisionId) <;> simp
  rw [← hnew]
  unfold register
  dsimp only
  by_cases hblank : trim request.decisionId = ""
  · rw [if_pos hblank, throw_bind]
    constructor
    · exact fun h => nomatch (Prod.mk.inj h).1
    · exact fun h => absurd hblank h.1
  rw [if_neg hblank]
  constructor
  · intro h
    obtain ⟨records, _, hlisted, h⟩ := bind_eq_ok_iff.mp h
    obtain ⟨_, _, hchecked, h⟩ := bind_eq_ok_iff.mp h
    obtain ⟨history, _, hread, h⟩ := bind_eq_ok_iff.mp h
    obtain ⟨_, _, hclock, h⟩ := bind_eq_ok_iff.mp h
    obtain ⟨_, _, htoken, h⟩ := bind_eq_ok_iff.mp h
    obtain ⟨r, _, hsubmit, h⟩ := bind_eq_ok_iff.mp h
    cases h
    cases hclock
    cases htoken
    rw [recordsOfDecision_apply] at hlisted
    cases hlisted
    obtain ⟨rfl, hunused⟩ := refuseRepetition_eq_ok_iff.mp hchecked
    rw [readRun_apply] at hread
    cases hread
    obtain ⟨hevent, haccepts, hdrawn⟩ := submit_eq_ok_iff.mp (adapt_eq_ok_iff.mp hsubmit)
    exact ⟨hblank, hunused, r, hevent, haccepts, hdrawn, rfl⟩
  · rintro ⟨-, hunused, r, hevent, haccepts, hdrawn, rfl⟩
    refine bind_eq_ok_iff.mpr ⟨_, ledger, recordsOfDecision_apply _ ledger, ?_⟩
    refine bind_eq_ok_iff.mpr ⟨(), ledger, refuseRepetition_eq_ok_iff.mpr ⟨rfl, hunused⟩, ?_⟩
    refine bind_eq_ok_iff.mpr ⟨_, ledger, readRun_apply _ ledger, ?_⟩
    refine bind_eq_ok_iff.mpr ⟨_, ledger, rfl, ?_⟩
    refine bind_eq_ok_iff.mpr ⟨_, { ledger with drawn := ledger.drawn + 1 }, rfl, ?_⟩
    have hsubmit : submit (request.toEvent
          (timeAfter (ledger.store.readOrder (trim request.runId)) (around.now (ledger.drawn + 1)))
          (around.token (ledger.drawn + 1))) { ledger with drawn := ledger.drawn + 1 } =
        (.ok r, next) := submit_eq_ok_iff.mpr ⟨hevent, haccepts, hdrawn⟩
    exact bind_eq_ok_iff.mpr ⟨r, next, adapt_eq_ok_iff.mpr hsubmit, rfl⟩

section

variable {request : ApprovalRequest} {r : Record} {t : MemoryStore}

theorem role_requestFor : (ledger.requestFor around request).role = .asks :=
  Event.role_eq_asks_iff.mpr ⟨ApprovalRequest.ending?_toEvent, ApprovalRequest.isAnswer_toEvent,
    ApprovalRequest.isRequest_toEvent⟩

/-- The request is dated behind its run. -/
theorem lt_requestFor (hs : ledger.store.Sound) :
    ∀ x ∈ ledger.store.readOrder (trim request.runId),
      x.timestamp < (ledger.requestFor around request).timestamp :=
  hs.lt_timeAfter _ (around.now (ledger.drawn + 1))

theorem comesLast_of_requestFor (hs : ledger.store.Sound)
    (hevent : r.event = ledger.requestFor around request) (haccepts : ledger.store.Accepts r t) :
    ledger.store.ComesLast r t := by
  refine haccepts.comesLast hs ?_
  have hrun : r.runId = trim request.runId := congrArg Event.runId hevent
  rw [hrun, Record.timestamp, hevent]
  exact lt_requestFor hs

/-- The run of a request that is accepted waits for an answer to it. -/
theorem asks_of_accepts (hs : ledger.store.Sound) (hdecision : trim request.decisionId ≠ "")
    (hnew : ledger.store.IsUndecided (trim request.decisionId))
    (hevent : r.event = ledger.requestFor around request)
    (haccepts : ledger.store.Accepts r t) :
    ledger.store.Asks (trim request.decisionId) r t := by
  have hlast := comesLast_of_requestFor hs hevent haccepts
  obtain ⟨p, q, hp, hmoves, hq⟩ := hlast.exists_moves
  have hrole : r.event.role = .asks := hevent ▸ role_requestFor
  obtain ⟨-, hfree, rfl⟩ := (RunState.moves_iff_of_asks hrole).mp hmoves
  obtain ⟨-, hnoAnswer, hasks⟩ := Event.role_eq_asks_iff.mp hrole
  refine ⟨haccepts, hnew, ?_, hasks, hnoAnswer, ?_, ?_, ⟨p, hp, hfree⟩,
    ⟨hq, by simp [hlast.read], rfl⟩⟩
  · rw [hevent, requestFor, ApprovalRequest.decision?_toEvent hdecision]
  · rw [hevent]
    rfl
  · rw [hevent]
    rfl

/-- A request that is refused changes nothing. -/
theorem store_eq_of_register_error {error : RequestError}
    (h : register around request ledger = (.error error, next)) : next.store = ledger.store := by
  have hbare : error.IsBare :=
    (stepsOf_accepts.register around request).refusals ledger error next h
  have hsteps := MemoryStore.quietOf.register around request ledger error next h hbare
  rw [Relation.reflTransGen_eq_self] at hsteps
  exact hsteps.symm

/-- What is registered is put on record as a request. -/
theorem exists_asks_of_register {registration : Registration} (hs : ledger.store.Sound)
    (h : register around request ledger = (.ok registration, next)) :
    ∃ r, ledger.store.Asks (trim request.decisionId) r next.store ∧
      registration.eventId = r.eventId ∧ registration.runId = r.runId := by
  obtain ⟨hdecision, hnew, r, hevent, haccepts, -, rfl⟩ := register_eq_ok_iff.mp h
  exact ⟨r, asks_of_accepts hs hdecision hnew hevent haccepts, rfl, rfl⟩

end

/-! ## Answering -/

variable {strategies : Strategies MemoryStore} {target : ApprovalTarget}
  {resolution : Resolution} {asked recorded : Record} {before : RunStatus} {eventId : String}

/-- An answer that is refused without an outcome changes nothing. -/
theorem store_eq_of_resolve_error {error : RequestError}
    (h : resolve strategies around target resolution ledger = (.error error, next))
    (hbare : error.IsBare) : next.store = ledger.store := by
  have hsteps :=
    MemoryStore.quietOf.resolve strategies around target resolution ledger error next h hbare
  rw [Relation.reflTransGen_eq_self] at hsteps
  exact hsteps.symm

/-- An answer to a request that is recorded closes the request. -/
theorem settles_of_recordAnswer (hs : ledger.store.Sound)
    (h : recordAnswer around eventId resolution ledger = (.ok (asked, recorded, before), next)) :
    ledger.store.Settles asked resolution.answer recorded next.store := by
  obtain ⟨-, -, ⟨request, hwaits⟩, hevent, haccepts, -⟩ := waitsFor_of_recordAnswer hs h
  obtain ⟨hrun, -⟩ := comesLast_of_answerTo hs hwaits hevent haccepts
  refine ⟨⟨request, hwaits.waitsOn, closes_of_accepts hs hwaits hevent haccepts⟩, hrun, ?_, ?_, ?_,
    ?_, ?_⟩
  · rw [hevent, answerTo, Resolution.decision?_toEvent]
  · rw [hevent, answerTo, Resolution.isRequest_toEvent]
  · rw [hevent, answerTo, isAnswer_toEvent]
  · rw [hevent]
    rfl
  · rw [hevent]
    rfl

/-- When nothing is to follow an answer, its outcome comes back and nothing more is recorded. -/
theorem conclude_of_none (hs : ledger.store.Sound)
    (hnone : asked.event.workflow?.bind strategies.find? = none) (answer : Answer) :
    ∃ outcome, conclude strategies around asked recorded before answer ledger =
        (.ok outcome, ledger) ∧
      outcome.Names asked recorded ∧ outcome.answer = answer := by
  have hcontinue : continueAnswer strategies ⟨asked, recorded⟩ answer ledger =
      (.ok ([], none), ledger) := by
    cases answer with
    | rejected => rfl
    | approved =>
      rw [continueAnswer, continueAfter, hnone]
      rfl
  obtain ⟨state, hstate⟩ := (hs.2 recorded.runId).exists_state
  exact ⟨_, conclude_apply hcontinue rfl hstate, ⟨rfl, rfl, rfl, rfl⟩, rfl⟩

theorem find?_standard : Strategies.standard.find? approvalWorkflow =
    (none : Option (Strategy MemoryStore)) := rfl

/-- Where all requests are those of the approval workflow, who answers one gets the outcome back
and the answer is on record, or gets an error and nothing is. -/
theorem resolve_cases (hs : ledger.store.Sound) (honly : ledger.store.OnlyApprovals)
    {answer : Except RequestError Outcome}
    (h : resolve .standard around target resolution ledger = (answer, next)) :
    (∃ error, answer = .error error ∧ error.IsBare ∧ next.store = ledger.store) ∨
      ∃ outcome asked recorded, answer = .ok outcome ∧ outcome.answer = resolution.answer ∧
        outcome.Names asked recorded ∧
        ledger.store.Settles asked outcome.answer recorded next.store := by
  cases houtcome : Outcome.ofAnswer? answer with
  | some given =>
    have hcomes : Outcome.ofAnswer? (resolve .standard around target resolution ledger).1 =
        some given := by rw [h, houtcome]
    obtain ⟨asked, recorded, submitted, -, hrecorded, hresolve⟩ :=
      exists_recordAnswer_of_outcome hs hcomes
    have hsettles := settles_of_recordAnswer hs hrecorded
    have ⟨request, hwaits, hcloses⟩ := hsettles.closes
    have hnone : asked.event.workflow?.bind (.standard : Strategies MemoryStore).find? = none := by
      rw [honly asked (hwaits.mem_records hs)]
      exact find?_standard
    obtain ⟨outcome, hconclude, hnames, hanswer⟩ :=
      conclude_of_none (hs.accepts hcloses.accepted) hnone resolution.answer
    rw [hresolve, hconclude] at h
    cases h
    exact .inr ⟨outcome, asked, recorded, rfl, hanswer, hnames, hanswer ▸ hsettles⟩
  | none =>
    cases answer with
    | ok outcome => cases houtcome
    | error error => exact .inl ⟨error, rfl, houtcome, store_eq_of_resolve_error h houtcome⟩

end Ledger

/-! ## Asking and answering -/

/-- The request asks for an approval, or answers a request with the strategies that are there from
the start. -/
def Operation.IsApproval : Operation MemoryStore → Prop
  | .register _ _ => True
  | .resolve strategies _ _ _ _ => strategies = .standard
  | _ => False

namespace Call

/-- The call registers a request for the policy decision. -/
def Registers (call : Call MemoryStore) (decisionId : String) (registration : Registration) :
    Prop :=
  match call.operation with
  | .register _ request =>
    trim request.decisionId = decisionId ∧ call.answer = .ok (.registered registration)
  | _ => False

/-- The call answers the request that has been registered. -/
def Answers (call : Call MemoryStore) (registration : Registration) (outcome : Outcome) : Prop :=
  call.answer = .ok (.resolved outcome) ∧ outcome.targetEventId = registration.eventId ∧
    outcome.runId = registration.runId

/-- The answer that the call is to put on record. -/
def Gives (call : Call MemoryStore) (answer : Answer) : Prop :=
  match call.operation with
  | .resolve _ _ _ _ resolution => resolution.answer = answer
  | _ => False

/-- The three things that asking and answering can do. -/
inductive Takes (call : Call MemoryStore) : Prop
  /-- the call is refused -/
  | refused (error : RequestError) (answer : call.answer = .error error)
      (kept : call.next.store = call.ledger.store)
  /-- the call opens a request -/
  | asks {around : Surroundings} {request : ApprovalRequest} {registration : Registration}
      {r : Record} (operation : call.operation = .register around request)
      (answer : call.answer = .ok (.registered registration))
      (asks : call.ledger.store.Asks (trim request.decisionId) r call.next.store)
      (named : registration.eventId = r.eventId) (run : registration.runId = r.runId)
  /-- the call closes the open request of a run -/
  | settles {outcome : Outcome} {asked recorded : Record}
      (answer : call.answer = .ok (.resolved outcome)) (given : call.Gives outcome.answer)
      (names : outcome.Names asked recorded)
      (settles : call.ledger.store.Settles asked outcome.answer recorded call.next.store)

theorem takes {call : Call MemoryStore} (happroval : call.operation.IsApproval)
    (hs : call.ledger.store.Sound) (honly : call.ledger.store.OnlyApprovals) : call.Takes := by
  obtain ⟨ledger, operation⟩ := call
  cases operation with
  | submit | submitDocument => exact happroval.elim
  | register around request =>
    rcases hregister : Ledger.register around request ledger with ⟨error | registration, next⟩
    · refine .refused error ?_ ?_
      · rw [answer, Operation.perform, bind_apply, hregister]
      · rw [Call.next, Operation.perform, bind_apply, hregister]
        exact Ledger.store_eq_of_register_error hregister
    · obtain ⟨r, hasks, hnamed, hrun⟩ := Ledger.exists_asks_of_register hs hregister
      refine .asks rfl ?_ ?_ hnamed hrun
      · rw [answer, Operation.perform, bind_apply, hregister]
        rfl
      · rw [Call.next, Operation.perform, bind_apply, hregister]
        exact hasks
  | resolve strategies describe around target resolution =>
    obtain rfl : strategies = .standard := happroval
    rcases hresolve : Ledger.resolve .standard around target resolution ledger with ⟨answer, next⟩
    have hnext : (Call.mk ledger (.resolve .standard describe around target resolution)).next =
        next := by
      rw [next_resolve, hresolve]
    rcases Ledger.resolve_cases hs honly hresolve with
      ⟨error, rfl, -, hkept⟩ | ⟨outcome, asked, recorded, rfl, hgiven, hnames, hsettles⟩
    · refine .refused error ?_ (hnext ▸ hkept)
      rw [Call.answer, Operation.perform, bind_apply, hresolve]
    · refine .settles ?_ hgiven.symm hnames (hnext ▸ hsettles)
      rw [Call.answer, Operation.perform, bind_apply, hresolve]
      rfl

/-- Asking and answering record nothing that is not of the approval workflow. -/
theorem Takes.onlyApprovals {call : Call MemoryStore} (h : call.Takes)
    (hs : call.ledger.store.Sound) (honly : call.ledger.store.OnlyApprovals) :
    call.next.store.OnlyApprovals := by
  cases h with
  | refused _ _ hkept => rwa [hkept]
  | asks _ _ hasks => exact honly.accepts hs hasks.accepted hasks.workflow
  | settles _ _ _ hsettles =>
    obtain ⟨request, -, hcloses⟩ := hsettles.closes
    exact honly.accepts hs hcloses.accepted hsettles.workflow

end Call

end RunLedger
