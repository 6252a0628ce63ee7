/-
  Proofs/Approval/StoppedRun.lean --- a follow-up that is refused stops the run.

  WHAT THIS FILE IS FOR.  A strategy may describe anything: events of other runs, of
  the past, with identifiers that are in use, or behind the end of the run.  They are
  recorded up to the first that is refused.  Then the run of the request is stopped,
  by an event that the library makes itself and dates behind the run: no run that
  goes on refuses it, whatever state the strategy has left it in.
-/
import RunLedger.Proofs.Approval.NeverLost
import RunLedger.Proofs.Ledger.TerminalLock

set_option autoImplicit false

namespace RunLedger

open RunLedger.Text (isBlankText)

namespace MemoryStore

/-- The store takes some records, one after the other. -/
inductive AcceptsAll : MemoryStore → List Record → MemoryStore → Prop
  | nil (s : MemoryStore) : AcceptsAll s [] s
  | cons {s m t : MemoryStore} {r : Record} {rest : List Record}
      (first : s.Accepts r m) (behind : AcceptsAll m rest t) : AcceptsAll s (r :: rest) t

theorem AcceptsAll.chain {s t : MemoryStore} {records : List Record}
    (h : s.AcceptsAll records t) :
    Relation.ReflTransGen (fun s t => ∃ r, s.Accepts r t) s t := by
  induction h with
  | nil => exact .refl
  | cons hfirst _ ih => exact .head ⟨_, hfirst⟩ ih

/-- What is on record afterwards was on record before, or has been taken. -/
theorem AcceptsAll.mem_readOrder {s t : MemoryStore} {records : List Record}
    (h : s.AcceptsAll records t) (hs : s.Sound) {runId : String} {x : Record}
    (hx : x ∈ t.readOrder runId) : x ∈ s.readOrder runId ∨ x ∈ records := by
  induction h with
  | nil => exact .inl hx
  | cons hfirst _ ih =>
    rcases ih (hs.accepts hfirst) hx with hmiddle | hrest
    · rcases (hfirst.mem_readOrder hs).mp hmiddle with hold | ⟨rfl, -⟩
      · exact .inl hold
      · exact .inr List.mem_cons_self
    · exact .inr (List.mem_cons_of_mem _ hrest)

/-- The run has ended. -/
def HasEnded (store : MemoryStore) (runId : String) : Prop := ∃ state, store.EndedAt runId state

end MemoryStore

/-! ## The event that stops a run -/

/-- The event that stops a run has no problems, if the request has none. -/
theorem problems_failureEvent {asked : Record} (hfaultless : asked.event.problems = [])
    (cause : RequestError) (at_ : Time.Instant) (token : String) :
    (failureEvent asked cause at_ token).normalized.problems = [] := by
  obtain ⟨-, -, -, hrun, -⟩ := Event.problems_eq_nil_iff.mp hfaultless
  have hdetails : isBlankText (failureEvent asked cause at_ token).details = false := by
    have h : (failureEvent asked cause at_ token).details =
      "Continuation after approval '" ++ asked.eventId ++ "' failed: " ++ cause.message := rfl
    rw [h]
    exact Text.isBlankText_eq_false (c := 'C') (by simp) (by decide)
  have hid : isBlankText (failureEvent asked cause at_ token).id = false := by
    have h : (failureEvent asked cause at_ token).id = "evt_" ++
      asked.event.workflow?.getD approvalWorkflow ++ "_continuation_error_" ++ token := rfl
    rw [h]
    exact Text.isBlankText_eq_false (c := 'e') (by simp) (by decide)
  have htitle : isBlankText "Post-approval continuation failed" = false := by decide
  refine Event.problems_normalized_eq_nil_iff.mpr ⟨?_, hdetails, hid, hrun, htitle⟩
  rintro x ⟨⟩

/-- The identifier of the event that stops a run of a workflow. -/
def stopId (workflow token : String) : String :=
  Text.trim ("evt_" ++ workflow ++ "_continuation_error_" ++ token)

theorem isPrefix_stopId (workflow token : String) :
    "evt_".toList <+: (stopId workflow token).toList := by
  have hprefix : "evt_".toList = 'e' :: ['v', 't'] ++ ['_'] := rfl
  have hid : (stopId workflow token).toList = Text.trimChars ("evt_".toList ++
      (workflow ++ "_continuation_error_" ++ token).toList) := by
    simp [stopId, Text.trim]
  rw [hid, hprefix]
  exact Text.isPrefix_trimChars (by decide) (by decide)

theorem id_failureEvent (asked : Record) (cause : RequestError) (at_ : Time.Instant)
    (token : String) :
    (failureEvent asked cause at_ token).normalized.id =
      stopId (asked.event.workflow?.getD approvalWorkflow) token := rfl

namespace Ledger

variable {ledger next failed : Ledger MemoryStore} {around : Surroundings} {asked : Record}
  {cause : RequestError}

/-- The event with which the ledger stops the run of a request. -/
def stopEvent (ledger : Ledger MemoryStore) (around : Surroundings) (asked : Record)
    (cause : RequestError) : Event :=
  (failureEvent asked cause
    (timeAfter (ledger.store.readOrder asked.runId) (around.now (ledger.drawn + 1)))
    (around.token (ledger.drawn + 1))).normalized

theorem step?_stopEvent : (ledger.stopEvent around asked cause).step? = some "run_stopped" := rfl

theorem ending?_stopEvent :
    (ledger.stopEvent around asked cause).ending? = some .stopped := by
  have hkind : (ledger.stopEvent around asked cause).kind = .error := rfl
  rw [Event.ending?, hkind, step?_stopEvent]
  rfl

/-- The event that stops a run is dated behind it. -/
theorem lt_stopEvent (hs : ledger.store.Sound) :
    ∀ r ∈ ledger.store.readOrder asked.runId,
      r.timestamp < (ledger.stopEvent around asked cause).timestamp :=
  hs.lt_timeAfter asked.runId (around.now (ledger.drawn + 1))

theorem runId_stopEvent (hs : ledger.store.Sound)
    (hasked : asked ∈ ledger.store.readOrder asked.runId) :
    (ledger.stopEvent around asked cause).runId = asked.runId := by
  obtain ⟨⟨log, hlog⟩, -⟩ := hs
  have hnormal : Text.trim asked.runId = asked.runId :=
    congrArg Event.runId (hlog.normal asked (hlog.mem_readOrder.mp hasked).1)
  exact hnormal

/-- The event that stops a run comes last in it, when it is accepted. -/
theorem comesLast_of_stopEvent (hs : ledger.store.Sound)
    (hasked : asked ∈ ledger.store.readOrder asked.runId) {stop : Record} {t : MemoryStore}
    (hevent : stop.event = ledger.stopEvent around asked cause)
    (haccepts : ledger.store.Accepts stop t) : ledger.store.ComesLast stop t := by
  refine haccepts.comesLast hs ?_
  rw [Record.runId, Record.timestamp, hevent, runId_stopEvent hs hasked]
  exact lt_stopEvent hs

/-- The identifier of the event that stops a run is new where none begins like it. -/
theorem stopEvent_isNew {ids : List String} (hids : ∀ id ∈ ids, ¬ "evt_".toList <+: id.toList)
    (hknown : ∀ r ∈ ledger.store.readOrder asked.runId, r.eventId ∈ ids) :
    ∀ r ∈ ledger.store.readOrder asked.runId,
      r.eventId ≠ (ledger.stopEvent around asked cause).id := by
  intro r hr heq
  refine hids r.eventId (hknown r hr) ?_
  rw [heq, stopEvent, id_failureEvent]
  exact isPrefix_stopId _ _

/-- A run that has not ended takes the event that stops it, whatever its state, unless the
identifier is in use. -/
theorem goesOnWith_failureEvent (hs : ledger.store.Sound) (hfaultless : ledger.store.Faultless)
    (hasked : asked ∈ ledger.store.readOrder asked.runId)
    (halive : ¬ ledger.store.HasEnded asked.runId) :
    ledger.store.GoesOnWith (failureEvent asked cause
        (timeAfter (ledger.store.readOrder asked.runId) (around.now (ledger.drawn + 1)))
        (around.token (ledger.drawn + 1))) ⟨.stopped, none⟩ := by
  have hrun : (ledger.stopEvent around asked cause).runId = asked.runId :=
    runId_stopEvent hs hasked
  obtain ⟨state, hstate⟩ := (hs.2 asked.runId).exists_state
  have hgoes : state.status.isTerminal = false := by
    rw [Bool.eq_false_iff]
    exact fun hended => halive ⟨state, hstate, hended⟩
  have hends : (ledger.stopEvent around asked cause).ending? = some .stopped := ending?_stopEvent
  refine ⟨problems_failureEvent (hfaultless asked.runId asked hasked) _ _ _, ?_, state, ?_, rfl,
    .ends hgoes hends⟩
  · exact hrun.symm ▸ lt_stopEvent hs
  · exact hrun.symm ▸ hstate

/-! ## What becomes of the run -/

/-- A follow-up of the request `asked` having been refused for the reason `cause`, the run of the
request is stopped, unless it has ended already; in either case it has ended then, with a
status. -/
structure StopsRun (failed : Ledger MemoryStore) (around : Surroundings) (asked : Record)
    (cause : RequestError) (next : Ledger MemoryStore) (status : RunStatus) : Prop where
  kept : failed.store.HasEnded asked.runId → next.store = failed.store
  stopped : ¬ failed.store.HasEnded asked.runId ↔
    ∃ stop, stop.event = failed.stopEvent around asked cause ∧
      stop.event.kind = .error ∧ stop.event.step? = some "run_stopped" ∧
      stop.runId = asked.runId ∧ failed.store.Accepts stop next.store
  ended : ∃ state, next.store.EndedAt asked.runId state ∧ status = state.status

theorem recordFailure_apply (around : Surroundings) (asked : Record) (cause : RequestError)
    (ledger : Ledger MemoryStore) :
    recordFailure around asked cause ledger =
      (.ok (), (submit (failureEvent asked cause
          (timeAfter (ledger.store.readOrder asked.runId) (around.now (ledger.drawn + 1)))
          (around.token (ledger.drawn + 1)))
        { ledger with drawn := ledger.drawn + 1 }).2) := by
  have hread : attempt (call (EventStore.readRun asked.runId)) ledger =
      (.ok (.ok (ledger.store.readOrder asked.runId)), ledger) := rfl
  rw [recordFailure, bind_apply, hread]
  dsimp only
  rw [bind_apply, readClock]
  dsimp only
  rw [bind_apply, drawToken]
  dsimp only
  rw [bind_apply, attempt]
  rcases submit _ { ledger with drawn := ledger.drawn + 1 } with ⟨answer, next⟩
  rfl

theorem statusOr_apply {runId : String} {state : RunState}
    (hstate : RunState.ofRecords (ledger.store.readOrder runId) = .ok state)
    (otherwise : RunStatus) :
    statusOr runId otherwise ledger = (.ok state.status, ledger) := by
  have hread : (call (EventStore.readRun runId) >>= stateOf) ledger = (.ok state, ledger) := by
    rw [bind_apply, readRun_apply]
    dsimp only
    rw [stateOf, hstate]
    rfl
  rw [statusOr, bind_apply, attempt, hread]
  rfl

/-- The event that puts a refusal on record is all that is recorded then. -/
theorem cases_of_recordFailure (h : recordFailure around asked cause failed = (.ok (), next)) :
    next.store = failed.store ∨
      ∃ stop, stop.event = failed.stopEvent around asked cause ∧
        failed.store.Accepts stop next.store := by
  rw [recordFailure_apply] at h
  obtain rfl := (Prod.mk.inj h).2
  rcases hsubmit : submit (failureEvent asked cause
        (timeAfter (failed.store.readOrder asked.runId) (around.now (failed.drawn + 1)))
        (around.token (failed.drawn + 1))) { failed with drawn := failed.drawn + 1 } with
    ⟨error | stop, next⟩
  · rw [submit_error hsubmit]
    exact .inl rfl
  · obtain ⟨hevent, haccepts, -⟩ := submit_eq_ok_iff.mp hsubmit
    exact .inr ⟨stop, hevent, haccepts⟩

theorem cases_of_noteFailure {failure : Option RequestError}
    (h : noteFailure around asked failure failed = (.ok (), next)) :
    next.store = failed.store ∨
      ∃ cause stop, failure = some cause ∧ stop.event = failed.stopEvent around asked cause ∧
        failed.store.Accepts stop next.store := by
  cases failure with
  | none =>
    cases h
    exact .inl rfl
  | some cause =>
    refine (cases_of_recordFailure h).imp_right ?_
    rintro ⟨stop, hevent, haccepts⟩
    exact ⟨cause, stop, rfl, hevent, haccepts⟩

/-- Putting on record that a follow-up was refused stops a run that goes on. -/
theorem exists_stop_of_recordFailure (hs : failed.store.Sound)
    (hfaultless : failed.store.Faultless) (hasked : asked ∈ failed.store.readOrder asked.runId)
    (halive : ¬ failed.store.HasEnded asked.runId)
    (hfresh : ∀ r ∈ failed.store.readOrder asked.runId,
      r.eventId ≠ (failed.stopEvent around asked cause).id) :
    ∃ stop t, stop.event = failed.stopEvent around asked cause ∧ failed.store.Accepts stop t ∧
      t.EndedAt asked.runId ⟨.stopped, none⟩ ∧
      recordFailure around asked cause failed = (.ok (), ⟨t, failed.drawn + 1⟩) := by
  have hrun : (failed.stopEvent around asked cause).runId = asked.runId :=
    runId_stopEvent hs hasked
  have hgoes : failed.store.GoesOnWith (failureEvent asked cause
      (timeAfter (failed.store.readOrder asked.runId) (around.now (failed.drawn + 1)))
      (around.token (failed.drawn + 1))) ⟨.stopped, none⟩ :=
    goesOnWith_failureEvent hs hfaultless hasked halive
  have hnew : ¬ failed.store.Uses (failed.stopEvent around asked cause).runId
      (failed.stopEvent around asked cause).id := by
    rintro ⟨x, hx, hid⟩
    exact hfresh x (hrun ▸ hx) hid
  obtain ⟨stop, t, hsubmit, hevent, hlast, hstate⟩ : ∃ stop t, submit _
      { failed with drawn := failed.drawn + 1 } = (.ok stop, ⟨t, failed.drawn + 1⟩) ∧ _ :=
    exists_comesLast_of_submit hs hgoes hnew
  refine ⟨stop, t, hevent, hlast.accepted, ⟨hrun ▸ hstate, rfl⟩, ?_⟩
  rw [recordFailure_apply, hsubmit]

/-- Putting on record that a follow-up was refused stops the run. -/
theorem stopsRun_of_recordFailure (hs : failed.store.Sound) (hfaultless : failed.store.Faultless)
    (hasked : asked ∈ failed.store.readOrder asked.runId)
    (hfresh : failed.store.HasEnded asked.runId ∨
      ∀ r ∈ failed.store.readOrder asked.runId,
        r.eventId ≠ (failed.stopEvent around asked cause).id)
    (hrecorded : recordFailure around asked cause failed = (.ok (), next)) :
    ∃ state, next.store.EndedAt asked.runId state ∧
      failed.StopsRun around asked cause next state.status := by
  have hrun : (failed.stopEvent around asked cause).runId = asked.runId :=
    runId_stopEvent hs hasked
  by_cases hended : failed.store.HasEnded asked.runId
  · obtain ⟨state, hstands⟩ := id hended
    have hkept : next.store = failed.store := by
      refine (cases_of_recordFailure hrecorded).resolve_right ?_
      rintro ⟨stop, hevent, haccepts⟩
      refine hstands.runId_ne haccepts ?_
      rw [Record.runId, hevent, hrun]
    refine ⟨state, hkept ▸ hstands, fun _ => hkept, ?_, state, hkept ▸ hstands, rfl⟩
    refine ⟨fun halive => absurd hended halive, ?_⟩
    rintro ⟨stop, -, -, -, hstopRun, haccepts⟩
    exact absurd hstopRun (hstands.runId_ne haccepts)
  · obtain ⟨stop, t, hevent, haccepts, hends, hsame⟩ :=
      exists_stop_of_recordFailure hs hfaultless hasked hended (hfresh.resolve_left hended)
    cases hsame.symm.trans hrecorded
    refine ⟨_, hends, fun h => absurd h hended, ?_, _, hends, rfl⟩
    refine ⟨fun _ => ⟨stop, hevent, ?_, ?_, ?_, haccepts⟩, fun _ => hended⟩
    · rw [hevent]
      rfl
    · rw [hevent]
      rfl
    · rw [Record.runId, hevent, hrun]

/-! ## The follow-ups before -/

theorem submitEach_of_error {event : Event} {error : RequestError}
    (h : submit event ledger = (.error error, next)) (rest : List Event) :
    submitEach (event :: rest) ledger = (.ok ([], some error), next) := by
  rw [submitEach, bind_apply, attempt, h]
  rfl

theorem submitEach_of_ok {event : Event} {r : Record} {rest : List Event} {ids : List String}
    {failure : Option RequestError} (h : submit event ledger = (.ok r, next))
    (hrest : submitEach rest next = (.ok (ids, failure), failed)) :
    submitEach (event :: rest) ledger = (.ok (r.eventId :: ids, failure), failed) := by
  rw [submitEach, bind_apply, attempt, h]
  dsimp only
  rw [bind_apply, hrest]
  rfl

/-- Of some events the first are recorded, as the records `followed`; the next one is refused for
the reason `cause`, which changes nothing. -/
structure BreaksOff (start : Ledger MemoryStore) (events : List Event) (followed : List Record)
    (failed : Ledger MemoryStore) (cause : RequestError) : Prop where
  recorded : start.store.AcceptsAll followed failed.store
  refused : ∃ done failing rest, events = done ++ failing :: rest ∧
    followed.map Record.event = done.map Event.normalized ∧
    submit failing failed = (.error cause, failed)

/-- Of some events the first are recorded, as the records `followed`: all of them, or those up to one
that is refused. -/
theorem exists_followed_of_submitEach {events : List Event} {ids : List String}
    {failure : Option RequestError}
    (h : submitEach events ledger = (.ok (ids, failure), failed)) :
    ∃ followed done rest, events = done ++ rest ∧ ids = followed.map Record.eventId ∧
      ledger.store.AcceptsAll followed failed.store ∧
      followed.map Record.event = done.map Event.normalized ∧
      (failure = none → rest = []) ∧
      ∀ cause, failure = some cause → ∃ failing others, rest = failing :: others ∧
        submit failing failed = (.error cause, failed) := by
  induction events generalizing ledger ids with
  | nil =>
    cases h
    exact ⟨[], [], [], rfl, rfl, .nil _, rfl, fun _ => rfl, by simp⟩
  | cons event rest ih =>
    rw [submitEach, bind_apply, attempt] at h
    rcases hsubmit : submit event ledger with ⟨error | r, next⟩
    · -- The first event is refused.
      rw [hsubmit] at h
      cases h
      obtain rfl := submit_error hsubmit
      refine ⟨[], [], event :: rest, rfl, rfl, .nil _, rfl, by simp, ?_⟩
      rintro cause ⟨⟩
      exact ⟨event, rest, rfl, hsubmit⟩
    · rw [hsubmit] at h
      dsimp only at h
      obtain ⟨⟨later, failure⟩, final, hlater, hreturn⟩ := bind_eq_ok_iff.mp h
      cases hreturn
      obtain ⟨followed, done, behind, rfl, rfl, hrecorded, hevents, hends⟩ := ih hlater
      obtain ⟨hevent, haccepts, -⟩ := submit_eq_ok_iff.mp hsubmit
      refine ⟨r :: followed, event :: done, behind, rfl, rfl, .cons haccepts hrecorded, ?_, hends⟩
      rw [List.map_cons, List.map_cons, hevent, hevents]

/-- When not all of some events are recorded, those up to one that is refused are. -/
theorem breaksOff_of_submitEach {events : List Event} {ids : List String}
    (h : submitEach events ledger = (.ok (ids, some cause), failed)) :
    ∃ followed, ids = followed.map Record.eventId ∧
      ledger.BreaksOff events followed failed cause := by
  obtain ⟨followed, done, _, hsplit, hids, hrecorded, hevents, -, hends⟩ :=
    exists_followed_of_submitEach h
  obtain ⟨failing, rest, rfl, hrefused⟩ := hends cause rfl
  exact ⟨followed, hids, hrecorded, done, failing, rest, hsplit, hevents, hrefused⟩

/-- The events that are to follow an answer. -/
def described (strategies : Strategies MemoryStore) (context : FollowUpContext) (answer : Answer)
    (store : MemoryStore) : List Event :=
  match answer with
  | .rejected => []
  | .approved =>
    match context.request.event.workflow?.bind strategies.find? with
    | none => []
    | some strategy => (strategy context store).1

/-- What follows an answer is what has been described. -/
theorem continueAnswer_apply {strategies : Strategies MemoryStore}
    (describe : strategies.OnlyDescribe) (context : FollowUpContext) (answer : Answer)
    (ledger : Ledger MemoryStore) :
    continueAnswer strategies context answer ledger =
      submitEach (described strategies context answer ledger.store) ledger := by
  cases answer with
  | rejected => rfl
  | approved =>
    show continueAfter strategies context ledger = _
    unfold continueAfter described
    dsimp only
    cases hfound : context.request.event.workflow?.bind strategies.find? with
    | none => rfl
    | some strategy =>
      obtain ⟨workflow, -, hstrategy⟩ := Option.bind_eq_some_iff.mp hfound
      have hdescribed : runStrategy strategy context ledger =
          (.ok (strategy context ledger.store).1, ledger) := by
        show (_, { ledger with store := (strategy context ledger.store).2 }) = _
        rw [describe workflow strategy hstrategy context ledger.store]
      dsimp only
      rw [bind_apply, hdescribed]

/-- What fails after an answer is an event that a strategy described for the request. -/
theorem exists_of_continueAnswer {strategies : Strategies MemoryStore}
    (describe : strategies.OnlyDescribe) {context : FollowUpContext} {answer : Answer}
    {ids : List String}
    (h : continueAnswer strategies context answer ledger = (.ok (ids, some cause), failed)) :
    ∃ strategy followed,
      context.request.event.workflow?.bind strategies.find? = some strategy ∧
      ids = followed.map Record.eventId ∧
      ledger.BreaksOff (strategy context ledger.store).1 followed failed cause := by
  rw [continueAnswer_apply describe] at h
  unfold described at h
  cases answer with
  | rejected => cases (Prod.mk.inj (Except.ok.inj (Prod.mk.inj h).1)).2
  | approved =>
    cases hfound : context.request.event.workflow?.bind strategies.find? with
    | none =>
      rw [hfound] at h
      cases (Prod.mk.inj (Except.ok.inj (Prod.mk.inj h).1)).2
    | some strategy =>
      rw [hfound] at h
      obtain ⟨followed, hids, hbreaks⟩ := breaksOff_of_submitEach h
      exact ⟨strategy, followed, rfl, hids, hbreaks⟩

/-- What comes back once an answer is on record, from what followed it and where the run stands
then. -/
theorem conclude_apply {strategies : Strategies MemoryStore} {recorded : Record}
    {before : RunStatus} {answer : Answer} {ids : List String} {failure : Option RequestError}
    {noted : Ledger MemoryStore} {state : RunState}
    (hfollow : continueAnswer strategies ⟨asked, recorded⟩ answer ledger =
      (.ok (ids, failure), failed))
    (hnote : noteFailure around asked failure failed = (.ok (), noted))
    (hstate : RunState.ofRecords (noted.store.readOrder recorded.runId) = .ok state) :
    conclude strategies around asked recorded before answer ledger =
      handBack ⟨recorded.eventId, asked.eventId, asked.event.decision?, recorded.runId, answer,
        recorded.timestamp, before, state.status, ids⟩ failure noted := by
  rw [conclude, bind_apply, hfollow]
  dsimp only
  rw [bind_apply, hnote]
  dsimp only
  rw [bind_apply, statusOr_apply hstate]

/-- When what should follow from a recorded answer fails, that is put on record, and the outcome
says which follow-ups are on record and what status the run has then. -/
theorem exists_of_conclude {strategies : Strategies MemoryStore} {recorded : Record}
    {before : RunStatus} {answer : Answer} {outcome : Outcome}
    (h : conclude strategies around asked recorded before answer ledger =
      (.error (.followUpFailed outcome cause), next)) :
    ∃ failed noted,
      continueAnswer strategies ⟨asked, recorded⟩ answer ledger =
        (.ok (outcome.followUpIds, some cause), failed) ∧
      recordFailure around asked cause failed = (.ok (), noted) ∧
      statusOr recorded.runId before noted = (.ok outcome.after, next) := by
  obtain ⟨ids, failure, failed, noted, after, read, hfollow, hnote, hstatus, hconclude⟩ :=
    exists_conclude_eq strategies around asked recorded before answer ledger
  rw [hconclude] at h
  cases failure with
  | none => cases (Prod.mk.inj h).1
  | some failure =>
    cases h
    exact ⟨failed, noted, hfollow, hnote, hstatus⟩

/-- Whatever has been asked of a fresh ledger, in whatever order, and whatever the strategies
describe: when a request is answered and the outcome comes back with a failure, then the request is
the open one of its run, and the answer is on record.  Behind it the follow-ups that the strategy
describes are on record up to one that is refused, and the outcome lists their identifiers.  Unless
the identifier of the event that would stop the run is in use, the run of the request is stopped
then, or has ended already, and the outcome says with which status. -/
theorem failed_follow_up_stops_the_run (operations : List (Operation MemoryStore))
    (strategies : Strategies MemoryStore) (describe : strategies.OnlyDescribe)
    (around : Surroundings) (target : ApprovalTarget) (resolution : Resolution)
    (outcome : Outcome) (cause : RequestError) (next : Ledger MemoryStore)
    (h : resolve strategies around target resolution (inMemory.after operations) =
      (.error (.followUpFailed outcome cause), next)) :
    ∃ (request : OpenRequest) (asked answer : Record) (strategy : Strategy MemoryStore)
        (submitted failed : Ledger MemoryStore) (followed : List Record),
      target.Means (inMemory.after operations).store asked ∧
      (inMemory.after operations).store.WaitsFor asked.runId request asked ∧
      (inMemory.after operations).store.Closes asked.runId request answer submitted.store ∧
      answer.runId = asked.runId ∧ outcome.Names asked answer ∧
      asked.event.workflow?.bind strategies.find? = some strategy ∧
      submitted.BreaksOff (strategy ⟨asked, answer⟩ submitted.store).1 followed failed cause ∧
      outcome.followUpIds = followed.map Record.eventId ∧
      (failed.store.HasEnded asked.runId ∨
          (∀ r ∈ failed.store.readOrder asked.runId,
            r.eventId ≠ (failed.stopEvent around asked cause).id) →
        failed.StopsRun around asked cause next outcome.after) := by
  have hs := sound_after operations
  have hfaultless := faultless_after operations
  generalize inMemory.after operations = ledger at *
  have hcomes : Outcome.ofAnswer? (resolve strategies around target resolution ledger).1 =
      some outcome := by
    rw [h]
    rfl
  obtain ⟨eventId, found, asked, answer, before, submitted, hfound, hrecorded, hnames⟩ :=
    exists_recorded_of_outcome hcomes
  obtain ⟨rfl, hmeans⟩ := means_of_targetEvent hfound
  -- The answer closes the request for which the run waited.
  obtain ⟨history, opened, hopen, hsubmit⟩ := exists_of_recordAnswer hrecorded
  obtain ⟨rfl, rfl, -, request, hwaits⟩ := exists_waitsFor_of_openRequest hs hopen
  obtain ⟨hevent, haccepts, -⟩ := submit_eq_ok_iff.mp hsubmit
  have hcloses := closes_of_accepts hs hwaits hevent haccepts
  have hasks := hmeans asked (openRequest_eq_ok hopen).1
  have hrun : answer.runId = asked.runId := by
    rw [Record.runId, hevent]
    exact answerTo_runId_of_waitsFor hs hwaits
  -- What follows comes from the strategy, and breaks off.
  rw [resolve_of_recorded hfound hrecorded] at h
  obtain ⟨failed, noted, hfollow, hnote, hstatus⟩ := exists_of_conclude h
  obtain ⟨strategy, followed, hstrategy, hids, hbreaks⟩ :=
    exists_of_continueAnswer describe hfollow
  refine ⟨request, asked, answer, strategy, submitted, failed, followed, hasks, hwaits, hcloses,
    hrun, hnames, hstrategy, hbreaks, hids, ?_⟩
  intro hfresh
  have hssubmitted : submitted.store.Sound := hs.accepts haccepts
  have hchain := hbreaks.recorded.chain
  have hasked : asked ∈ failed.store.readOrder asked.runId :=
    MemoryStore.mem_readOrder_of_chain hs (.head ⟨answer, haccepts⟩ hchain) hwaits.mem
  obtain ⟨state, hended, hstops⟩ := stopsRun_of_recordFailure (hssubmitted.of_chain hchain)
    (hfaultless.of_chain hs (.head ⟨answer, haccepts⟩ hchain)) hasked hfresh hnote
  rw [statusOr_apply (hrun ▸ hended.stands)] at hstatus
  obtain ⟨hanswered, rfl⟩ := Prod.mk.inj hstatus
  rw [← Except.ok.inj hanswered]
  exact hstops

/-- A strategy that files a note in another run, and then describes an event without a title. -/
def untitledFollowUp (_ : FollowUpContext) : List Event :=
  [{ letterDraft with id := "filed", runId := "archive" }, { letterDraft with title := "" }]

/-- The strategy for the triage requests. -/
def untitledStrategies : Strategies MemoryStore :=
  .set Triage.workflow (.pure untitledFollowUp) .none

/-- The note is filed and the untitled event refused, so the run of the request is stopped. -/
theorem untitled_follow_up_stops_the_run :
    ∃ (outcome : Outcome) (cause : RequestError) (asked : Record)
        (failed next : Ledger MemoryStore),
      resolve untitledStrategies stillSurroundings (.event "ask") ⟨.approved, "alice", none⟩
        (inMemory.after [.submit triageRequest]) =
          (.error (.followUpFailed outcome cause), next) ∧
      outcome.followUpIds = ["filed"] ∧
      failed.StopsRun stillSurroundings asked cause next outcome.after := by
  have hs := sound_after [.submit triageRequest]
  have hfound : targetEvent (.event "ask") (inMemory.after [.submit triageRequest]) =
      (.ok "ask", inMemory.after [.submit triageRequest]) := Prod.ext (by decide +kernel) rfl
  -- What is recorded can be computed; what is read afterwards is left to the theorem.
  obtain ⟨⟨asked, answer, before⟩, submitted, hrecorded, hfollow⟩ := bind_eq_ok_iff.mp
    (Prod.ext (by decide +kernel) rfl :
      (recordAnswer stillSurroundings "ask" ⟨.approved, "alice", none⟩ >>= fun found =>
          continueAnswer untitledStrategies ⟨found.1, found.2.1⟩ .approved >>= fun followed =>
            pure (found.2.1.eventId, followed.1, followed.2.isSome))
        (inMemory.after [.submit triageRequest]) =
      (.ok ("apr_ask_approved_19700101T000000006000Z_t", ["filed"], true), _))
  obtain ⟨⟨ids, failure⟩, failed, hcontinue, hreturn⟩ := bind_eq_ok_iff.mp hfollow
  obtain ⟨hanswer, hrest⟩ := Prod.mk.inj (Except.ok.inj (Prod.mk.inj hreturn).1)
  obtain ⟨rfl, hfails⟩ := Prod.mk.inj hrest
  obtain ⟨cause, rfl⟩ := Option.isSome_iff_exists.mp hfails
  obtain ⟨_, _, _, noted, after, next, hsame, -, -, hconclude⟩ := exists_conclude_eq
    untitledStrategies stillSurroundings asked answer before .approved submitted
  cases hcontinue.symm.trans hsame
  have hresolve := (resolve_of_recorded hfound hrecorded).trans hconclude
  obtain ⟨request, asked', answer', strategy, submitted', failed', followed, -, hwaits, hcloses, -,
    hnames, -, hbreaks, hids, hstops⟩ := failed_follow_up_stops_the_run [.submit triageRequest]
      untitledStrategies (Strategies.onlyDescribe_one _ _) stillSurroundings (.event "ask")
      ⟨.approved, "alice", none⟩ _ cause next hresolve
  refine ⟨_, cause, asked', failed', next, hresolve, rfl, hstops (.inr ?_)⟩
  -- No identifier on record begins like that of the event which stops the run.
  have hothers : ∀ id ∈ ["ask", "apr_ask_approved_19700101T000000006000Z_t", "filed"],
      ¬ "evt_".toList <+: id.toList := by decide
  refine stopEvent_isNew hothers fun r hr => ?_
  rcases hbreaks.recorded.mem_readOrder (hs.accepts hcloses.accepted) hr with hbefore | hfollowed
  · rcases (hcloses.accepted.mem_readOrder hs).mp hbefore with hold | ⟨rfl, -⟩
    · obtain ⟨⟨log, hlog⟩, -⟩ := hs
      have hall : ∀ x ∈ (inMemory.after [.submit triageRequest]).store.records,
          x.eventId = "ask" := by decide +kernel
      rw [hall r (hlog.mem_records.mpr (hlog.mem_readOrder.mp hold).1)]
      decide
    · have hid : r.eventId = "apr_ask_approved_19700101T000000006000Z_t" :=
        hnames.answer.symm.trans hanswer
      rw [hid]
      decide
  · have hfiled : ["filed"] = followed.map Record.eventId := hids
    have hmem : r.eventId ∈ followed.map Record.eventId := List.mem_map_of_mem hfollowed
    rw [← hfiled, List.mem_singleton] at hmem
    rw [hmem]
    decide

end Ledger

end RunLedger
