/-
  Proofs/Approval/WrittenLast.lean --- what the library records by itself comes last.

  WHAT THIS FILE IS FOR.  The library makes four kinds of events by itself: requests,
  answers, what follows the approval of a triage, and the event that stops a run.  It
  gives each of them a date of its own.  The clock may stand still or go back, and a
  run may have events of the future; whatever the clock does, each of these events is
  later than all that its run holds, and so comes last in it.

  WHAT IS ASSUMED.  The date of such an event is up to a few milliseconds later than
  one on record or the clock's; as in Time/Instant, that is still a date.
-/
import RunLedger.Proofs.Approval.TriageRun

set_option autoImplicit false

namespace RunLedger

open RunLedger.Text (trim)

/-! ## One after the other -/

namespace MemoryStore

/-- The store takes some records, one after the other, and each comes last in its run then. -/
inductive EachLast : MemoryStore → List Record → MemoryStore → Prop
  | nil (s : MemoryStore) : EachLast s [] s
  | cons {s m t : MemoryStore} {r : Record} {rest : List Record}
      (first : s.ComesLast r m) (behind : EachLast m rest t) : EachLast s (r :: rest) t

/-- Records of one run that are later than it, with dates that rise, come last one after the
other. -/
theorem AcceptsAll.eachLast {s t : MemoryStore} {records : List Record}
    (h : s.AcceptsAll records t) (hs : s.Sound) (runId : String)
    (hrun : ∀ r ∈ records, r.runId = runId)
    (hrising : records.Pairwise fun a b => a.timestamp < b.timestamp)
    (hlater : ∀ r ∈ records, ∀ x ∈ s.readOrder runId, x.timestamp < r.timestamp) :
    s.EachLast records t := by
  induction h with
  | nil s => exact .nil s
  | @cons s m t r rest hfirst _ ih =>
    obtain ⟨hnext, hrising⟩ := List.pairwise_cons.mp hrising
    obtain ⟨hrunFirst, hrunRest⟩ := List.forall_mem_cons.mp hrun
    obtain ⟨hlaterFirst, hlaterRest⟩ := List.forall_mem_cons.mp hlater
    have hlast : s.ComesLast r m := hfirst.comesLast hs (hrunFirst ▸ hlaterFirst)
    refine .cons hlast (ih (hs.accepts hfirst) hrunRest hrising ?_)
    intro y hy x hx
    rw [← hrunFirst, hlast.read, hrunFirst] at hx
    rcases List.mem_append.mp hx with hold | hnew
    · exact hlaterRest y hy x hold
    · rw [List.mem_singleton.mp hnew]
      exact hnext y hy

end MemoryStore

/-! ## Answering -/

namespace Ledger

variable {ledger next : Ledger MemoryStore} {around : Surroundings}
  {strategies : Strategies MemoryStore} {target : ApprovalTarget} {resolution : Resolution}

/-- What follows an answer is what the strategy for its request describes, or nothing. -/
theorem isPrefix_described {context : FollowUpContext} {describe : FollowUpContext → List Event}
    (hfound : context.request.event.workflow?.bind strategies.find? = some (.pure describe))
    (answer : Answer) (store : MemoryStore) :
    described strategies context answer store <+: describe context := by
  cases answer with
  | rejected => exact List.nil_prefix
  | approved =>
    unfold described
    rw [hfound]
    exact List.prefix_rfl

/-- What follows the approval of a triage comes last, one event after the other, behind an answer
that does. -/
theorem eachLast_of_followUp {s submitted failed : MemoryStore} {asked recorded : Record}
    {followed : List Record} {done : List Event} (hs : s.Sound)
    (hasked : asked ∈ s.readOrder recorded.runId) (hlast : s.ComesLast recorded submitted)
    (hfollowed : submitted.AcceptsAll followed failed)
    (hdone : done <+: Triage.followUp ⟨asked, recorded⟩)
    (hevents : followed.map Record.event = done.map Event.normalized) :
    submitted.EachLast followed failed := by
  have hssubmitted := hs.accepts hlast.accepted
  obtain ⟨⟨log, hlog⟩, -⟩ := hs
  obtain ⟨hmem, hrun⟩ := hlog.mem_readOrder.mp hasked
  have hnormal : trim asked.runId = asked.runId := congrArg Event.runId (hlog.normal asked hmem)
  have hmicros : recorded.timestamp.toMicros = recorded.timestamp :=
    congrArg Event.timestamp (MemoryStore.recorded hlast.accepted.appended).1.symm
  have hcome : ∀ r ∈ followed, ∃ event ∈ Triage.followUp ⟨asked, recorded⟩,
      r.event = event.normalized := by
    intro r hr
    have hmapped : r.event ∈ done.map Event.normalized := hevents ▸ List.mem_map_of_mem hr
    obtain ⟨event, hevent, heq⟩ := List.mem_map.mp hmapped
    exact ⟨event, hdone.subset hevent, heq.symm⟩
  refine hfollowed.eachLast hssubmitted recorded.runId ?_ ?_ ?_
  · intro r hr
    obtain ⟨event, hevent, heq⟩ := hcome r hr
    rw [Record.runId, heq, Triage.runId_followUp ⟨asked, recorded⟩ hnormal event hevent, hrun]
  · have hrising : done.Pairwise fun a b => a.normalized.timestamp < b.normalized.timestamp :=
      (Triage.pairwise_followUp ⟨asked, recorded⟩ hmicros).sublist hdone.sublist
    have hmapped : (followed.map Record.event).Pairwise fun a b => a.timestamp < b.timestamp := by
      rw [hevents, List.pairwise_map]
      exact hrising
    rw [List.pairwise_map] at hmapped
    exact hmapped
  · intro r hr x hx
    obtain ⟨event, hevent, heq⟩ := hcome r hr
    have hbehind : recorded.timestamp < r.timestamp := by
      have hdate : r.timestamp = event.normalized.timestamp := congrArg Event.timestamp heq
      rw [hdate]
      exact Triage.lt_followUp ⟨asked, recorded⟩ hmicros event hevent
    rw [hlast.read] at hx
    rcases List.mem_append.mp hx with hold | hnew
    · exact (hlast.later x hold).trans hbehind
    · rw [List.mem_singleton.mp hnew]
      exact hbehind

/-- The records with which answering a request takes the ledger to the next one: the answer
`recorded` to the request `asked`, what follows it, up to the ledger `failed`, and the event that
stops the run if a follow-up is refused.  What the library records by itself comes last. -/
structure AnswersLast (ledger : Ledger MemoryStore) (strategies : Strategies MemoryStore)
    (around : Surroundings) (resolution : Resolution) (asked recorded : Record)
    (submitted : Ledger MemoryStore) (followed : List Record) (failed : Ledger MemoryStore)
    (failure : Option RequestError) (next : Ledger MemoryStore) : Prop where
  asked_mem : asked ∈ ledger.store.readOrder recorded.runId
  answer : recorded.event = ledger.answerTo around resolution asked
  answer_last : ledger.store.ComesLast recorded submitted.store
  followed_all : submitted.store.AcceptsAll followed failed.store
  followed_last : asked.event.workflow?.bind strategies.find? = some (.pure Triage.followUp) →
    submitted.store.EachLast followed failed.store
  ends : next.store = failed.store ∨
    ∃ cause stop, failure = some cause ∧ stop.event = failed.stopEvent around asked cause ∧
      stop.runId = recorded.runId ∧ failed.store.ComesLast stop next.store

/-- Why what should follow an answer failed, if it did. -/
def failureOf? : Except RequestError Outcome → Option RequestError
  | .error (.followUpFailed _ cause) => some cause
  | _ => none

/-- A recorded answer, what follows it, and the event that stops its run come last. -/
theorem exists_answersLast_of_recordAnswer (hs : ledger.store.Sound)
    (describe : strategies.OnlyDescribe) {eventId : String} {asked recorded : Record}
    {before : RunStatus} {submitted failed noted : Ledger MemoryStore} {ids : List String}
    {failure : Option RequestError}
    (hrecorded : recordAnswer around eventId resolution ledger =
      (.ok (asked, recorded, before), submitted))
    (hfollow : continueAnswer strategies ⟨asked, recorded⟩ resolution.answer submitted =
      (.ok (ids, failure), failed))
    (hnote : noteFailure around asked failure failed = (.ok (), noted)) :
    noted.store.Sound ∧ ∃ followed, ids = followed.map Record.eventId ∧
      ledger.AnswersLast strategies around resolution asked recorded submitted followed failed
        failure noted := by
  obtain ⟨-, -, ⟨request, hwaits⟩, hevent, haccepts, -⟩ := waitsFor_of_recordAnswer hs hrecorded
  obtain ⟨hrun, hlast⟩ := comesLast_of_answerTo hs hwaits hevent haccepts
  rw [continueAnswer_apply describe] at hfollow
  obtain ⟨followed, done, rest, hsplit, hids, hfollowed, hevents, -, -⟩ :=
    exists_followed_of_submitEach hfollow
  have hasked : asked ∈ ledger.store.readOrder recorded.runId := hrun ▸ hwaits.mem
  -- The request is still there when the event that stops the run is made for it.
  have hchain := (Relation.ReflTransGen.single ⟨recorded, haccepts⟩).trans hfollowed.chain
  have hsfailed := hs.of_chain hchain
  have hkept : asked ∈ failed.store.readOrder asked.runId :=
    MemoryStore.mem_readOrder_of_chain hs hchain hwaits.mem
  have hnoted := cases_of_noteFailure hnote
  refine ⟨?_, followed, hids, hasked, hevent, hlast, hfollowed, ?_, ?_⟩
  · rcases hnoted with hsame | ⟨cause, stop, -, -, hstop⟩
    · rwa [hsame]
    · exact hsfailed.accepts hstop
  · intro htriage
    have hdone : done <+: described strategies ⟨asked, recorded⟩ resolution.answer
        submitted.store := hsplit ▸ List.prefix_append done rest
    exact eachLast_of_followUp hs hasked hlast hfollowed
      (hdone.trans (isPrefix_described htriage _ _)) hevents
  · refine hnoted.imp_right ?_
    rintro ⟨cause, stop, hfailure, hstop, hstopped⟩
    have hcomes := comesLast_of_stopEvent hsfailed hkept hstop hstopped
    refine ⟨cause, stop, hfailure, hstop, ?_, hcomes⟩
    rw [hrun, Record.runId, hstop, runId_stopEvent hsfailed hkept]

theorem exists_answersLast (hs : ledger.store.Sound) (describe : strategies.OnlyDescribe)
    {answer : Except RequestError Outcome} {outcome : Outcome}
    (h : resolve strategies around target resolution ledger = (answer, next))
    (houtcome : Outcome.ofAnswer? answer = some outcome) :
    ∃ asked recorded submitted followed failed,
      outcome.Names asked recorded ∧ outcome.followUpIds = followed.map Record.eventId ∧
      ledger.AnswersLast strategies around resolution asked recorded submitted followed failed
        (failureOf? answer) next := by
  have hcomes : Outcome.ofAnswer? (resolve strategies around target resolution ledger).1 =
      some outcome := by rw [h, houtcome]
  obtain ⟨asked, recorded, submitted, hnames, hrecorded, hresolve⟩ :=
    exists_recordAnswer_of_outcome hs hcomes
  obtain ⟨ids, failure, failed, noted, after, final, hfollow, hnote, hstatus, hconclude⟩ :=
    exists_conclude_eq strategies around asked recorded .paused resolution.answer submitted
  obtain ⟨hsnoted, followed, rfl, hanswers⟩ :=
    exists_answersLast_of_recordAnswer hs describe hrecorded hfollow hnote
  -- Reading the status of the run changes nothing.
  obtain ⟨state, hstate⟩ := (hsnoted.2 recorded.runId).exists_state
  rw [statusOr_apply hstate] at hstatus
  cases hstatus
  rw [hresolve, hconclude] at h
  cases failure with
  | none =>
    cases h
    cases houtcome
    exact ⟨asked, recorded, submitted, followed, failed, hnames, rfl, hanswers⟩
  | some cause =>
    cases h
    cases houtcome
    exact ⟨asked, recorded, submitted, followed, failed, hnames, rfl, hanswers⟩

/-- Whatever has been asked of a fresh ledger, in whatever order, and whatever the clock shows:

* a request for an approval is refused and changes nothing, or it is recorded and comes last in its
  run;
* an answer is refused without an outcome and changes nothing, or it is recorded and comes last in
  the run of its request.  So does then, one event after the other, what follows the approval of a
  triage, and the event that stops the run where a follow-up is refused. -/
theorem written_events_come_last (operations : List (Operation MemoryStore))
    (around : Surroundings) :
    (∀ request next,
      (∀ error, register around request (inMemory.after operations) = (.error error, next) →
        next.store = (inMemory.after operations).store) ∧
      ∀ registration,
        register around request (inMemory.after operations) = (.ok registration, next) →
        ∃ r, r.event = (inMemory.after operations).requestFor around request ∧
          registration.eventId = r.eventId ∧
          (inMemory.after operations).store.ComesLast r next.store) ∧
    ∀ strategies : Strategies MemoryStore, strategies.OnlyDescribe →
      ∀ target resolution answer next,
        resolve strategies around target resolution (inMemory.after operations) =
          (answer, next) →
        (Outcome.ofAnswer? answer = none → next.store = (inMemory.after operations).store) ∧
        ∀ outcome, Outcome.ofAnswer? answer = some outcome →
          ∃ asked recorded submitted followed failed,
            outcome.Names asked recorded ∧ outcome.followUpIds = followed.map Record.eventId ∧
            (inMemory.after operations).AnswersLast strategies around resolution asked recorded
              submitted followed failed (failureOf? answer) next := by
  have hs := sound_after operations
  generalize inMemory.after operations = ledger at *
  constructor
  · intro request next
    refine ⟨fun error h => store_eq_of_register_error h, fun registration h => ?_⟩
    obtain ⟨-, -, r, hevent, haccepts, -, rfl⟩ := register_eq_ok_iff.mp h
    exact ⟨r, hevent, rfl, comesLast_of_requestFor hs hevent haccepts⟩
  · intro strategies describe target resolution answer next h
    refine ⟨fun hnone => ?_, fun outcome houtcome => exists_answersLast hs describe h houtcome⟩
    cases answer with
    | ok outcome => cases hnone
    | error error => exact store_eq_of_resolve_error h hnone

/-- The clock stands still at the start, five milliseconds before the request: the answer and the two
events that follow it come last all the same, and so does a request in another run. -/
theorem triage_is_written_last :
    (∃ r t, r.event.title = "Archive?" ∧
      (inMemory.after [.submit triageRequest]).store.ComesLast r t) ∧
    ∃ recorded submitted followed failed, recorded.event.approval.status = .approved ∧
      followed.map Record.eventId = ["ask_resume", "ask_complete"] ∧
      (inMemory.after [.submit triageRequest]).store.ComesLast recorded submitted ∧
      submitted.EachLast followed failed := by
  obtain ⟨hregister, hresolve⟩ :=
    written_events_come_last [.submit triageRequest] stillSurroundings
  constructor
  · obtain ⟨registration, next, h⟩ : ∃ registration next,
        register stillSurroundings
          ⟨"archive", "archive", "agent", "Archive?", "It is old.", .low, none⟩
          (inMemory.after [.submit triageRequest]) = (.ok registration, next) :=
      exists_of_isOk (by decide +kernel)
    obtain ⟨r, hevent, -, hlast⟩ := (hregister _ next).2 registration h
    refine ⟨r, next.store, ?_, hlast⟩
    rw [hevent]
    rfl
  · obtain ⟨answer, next, outcome, asked, hrun, houtcome, hasked, hnamed, -, hid, hworkflow,
      hunused⟩ := exists_outcome_of_triageRequest
    obtain ⟨opened, recorded, submitted, followed, failed, hnames, hfollowed, hanswers⟩ :=
      (hresolve .standard Strategies.onlyDescribe_standard (.event "ask")
        ⟨.approved, "alice", none⟩ answer next hrun).2 outcome houtcome
    refine ⟨recorded, submitted.store, followed, failed.store, ?_, ?_, hanswers.answer_last,
      hanswers.followed_last ?_⟩
    · rw [hanswers.answer]
      rfl
    · obtain ⟨-, hends⟩ := endsTriage_of_resolve (sound_after [.submit triageRequest])
        (faultless_after [.submit triageRequest]) rfl hrun houtcome hasked hnamed hworkflow
        (hunused _ (by decide)) (hid ▸ by decide)
      rw [← hfollowed]
      cases hends with
      | completed resumeNew completeNew ids after stands =>
        rw [ids, hid]
        decide
      | notResumed resumeUsed ids after stands =>
        rw [hid] at resumeUsed
        exact absurd resumeUsed (hunused _ (by decide))
      | notCompleted resumeNew completeUsed ids after listed stands =>
        rw [hid] at completeUsed
        exact absurd completeUsed (hunused _ (by decide))
    · obtain ⟨⟨log, hlog⟩, -⟩ := sound_after [.submit triageRequest]
      have hall : ∀ x ∈ (inMemory.after [.submit triageRequest]).store.records,
          x.event.workflow? = some Triage.workflow := by decide +kernel
      rw [hall opened (hlog.mem_records.mpr (hlog.mem_readOrder.mp hanswers.asked_mem).1)]
      rfl

end Ledger

end RunLedger
