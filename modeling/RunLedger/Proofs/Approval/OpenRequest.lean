/-
  Proofs/Approval/OpenRequest.lean --- what it takes to answer an open request.

  WHAT THIS FILE IS FOR.  The answer to a request is an event that the library
  makes itself, dated behind the run.  If the run waits for the request, that event
  has no problems, passes the gate and closes the request.  What may be in its way
  is the look for an answer on record: it takes any answer for one whose identifier
  begins like those of the answers to the request.
-/
import RunLedger.Proofs.Approval.AnsweredOnce
import RunLedger.Proofs.Ledger.ApprovalHistory
import RunLedger.Proofs.Ledger.LastRecord

set_option autoImplicit false

namespace RunLedger

open RunLedger.Time (Instant)
open RunLedger.Text (trim isBlankText)

/-! ## The time of an answer -/

/-- The time for the next event of a run is later than all events of the run, and nothing is cut
off from it. -/
theorem timeAfter_later {records : List Record}
    (hmicros : ∀ r ∈ records, r.timestamp.toMicros = r.timestamp) (now : Instant) :
    (timeAfter records now).toMicros = timeAfter records now ∧
      ∀ r ∈ records, r.timestamp < timeAfter records now := by
  unfold timeAfter
  cases records with
  | nil => exact ⟨now.toMicros_toMicros, by simp⟩
  | cons first rest =>
    have hmem := Instant.foldl_latest_mem first.timestamp (rest.map Record.timestamp)
    have hle := Instant.le_foldl_latest first.timestamp (rest.map Record.timestamp)
    simp only [List.map_cons]
    generalize (rest.map Record.timestamp).foldl Instant.latest first.timestamp = last at hmem hle
    have hlast : last.toMicros = last := by
      have hmem' : last ∈ (first :: rest).map Record.timestamp := hmem
      obtain ⟨r, hr, rfl⟩ := List.mem_map.mp hmem'
      exact hmicros r hr
    have hupto : ∀ r ∈ first :: rest, r.timestamp ≤ last := by
      intro r hr
      have hr' : r.timestamp ∈ (first :: rest).map Record.timestamp := List.mem_map_of_mem hr
      exact hle _ hr'
    split
    · exact ⟨Instant.toMicros_addMillis (by decide) (by decide) hlast, fun r hr =>
        lt_of_le_of_lt (hupto r hr) (last.lt_addMillis (by decide) (by decide))⟩
    · rename_i hnow
      exact ⟨now.toMicros_toMicros, fun r hr => lt_of_le_of_lt (hupto r hr) (lt_of_not_ge hnow)⟩

/-- The time for the next event of a run in a store is later than all events of the run, also when
what is finer than a microsecond is left out. -/
theorem MemoryStore.Sound.lt_timeAfter {store : MemoryStore} (hs : store.Sound) (runId : String)
    (now : Instant) :
    ∀ r ∈ store.readOrder runId,
      r.timestamp < (timeAfter (store.readOrder runId) now).toMicros := by
  obtain ⟨⟨log, hlog⟩, -⟩ := hs
  have hmicros : ∀ r ∈ store.readOrder runId, r.timestamp.toMicros = r.timestamp :=
    fun r hr => congrArg Event.timestamp (hlog.normal r (hlog.mem_readOrder.mp hr).1)
  obtain ⟨hat, hlater⟩ := timeAfter_later hmicros now
  rw [hat]
  exact hlater

/-! ## Open and closed requests -/

namespace RunState

/-- The event opens a request when its run takes it. -/
def Opens (event : Event) : Bool :=
  event.ending?.isNone && !event.isAnswer && event.isRequest

/-- Requests are accounted for: what was open before and what events ask for is closed by events
or open afterwards, in the same order. -/
theorem closed_append_open {p q : RunState} {events : List Event} (h : p.steps events = .ok q) :
    (p.clearedFrom events).map Prod.fst ++ q.pending.toList.map OpenRequest.eventId =
      p.pending.toList.map OpenRequest.eventId ++ (events.filter Opens).map Event.id := by
  induction events generalizing p with
  | nil =>
    cases h
    simp [clearedFrom]
  | cons event rest ih =>
    obtain ⟨m, hmoves, hrest⟩ := steps_cons_eq_ok_iff.mp h
    have hrest' := ih hrest
    simp only [clearedFrom, step_eq_ok_iff.mpr hmoves]
    cases hmoves with
    | ends _ hmarks =>
      have hopens : Opens event = false := by simp [Opens, hmarks]
      cases hpending : p.pending <;> simp_all
    | answers _ hgoes hanswer hpending =>
      have hopens : Opens event = false := by simp [Opens, hanswer]
      simp_all
    | asks _ hgoes hanswer hrequest hfree =>
      have hopens : Opens event = true := by simp [Opens, hgoes, hanswer, hrequest]
      simp_all [Event.toOpenRequest]
    | passes _ hneutral =>
      have hopens : Opens event = false := by simp [Opens, hneutral.2.2]
      cases hpending : p.pending <;> simp_all [pass_pending]

/-- No request is closed twice, and one that is open has not been closed. -/
theorem nodup_closed {q : RunState} {history : List Record}
    (h : RunState.ofRecords history = .ok q) (hdistinct : (history.map Record.eventId).Nodup) :
    ((cleared history).map Prod.fst ++ q.pending.toList.map OpenRequest.eventId).Nodup := by
  have haccount : (cleared history).map Prod.fst ++ q.pending.toList.map OpenRequest.eventId =
      ((history.map Record.event).filter Opens).map Event.id := closed_append_open h
  have hids : history.map Record.eventId = (history.map Record.event).map Event.id := by
    rw [List.map_map]
    rfl
  rw [hids] at hdistinct
  rw [haccount]
  exact hdistinct.sublist (List.filter_sublist.map _)

theorem not_mem_closed_of_pending {q : RunState} {history : List Record} {request : OpenRequest}
    (h : RunState.ofRecords history = .ok q) (hpending : q.pending = some request)
    (hdistinct : (history.map Record.eventId).Nodup) :
    request.eventId ∉ (cleared history).map Prod.fst := by
  have hnodup := nodup_closed h hdistinct
  rw [hpending, List.nodup_append] at hnodup
  intro hmem
  exact hnodup.2.2 _ hmem request.eventId (by simp) rfl

end RunState

/-! ## Answers on record -/

/-- One of some records answers a request and has an identifier that begins like those of the
answers to the request `eventId`. -/
def HoldsNamedAnswer (eventId : String) (records : List Record) : Prop :=
  ∃ r ∈ records, r.event.isAnswer = true ∧ answerPrefix eventId <+: r.eventId.toList

instance (eventId : String) (records : List Record) :
    Decidable (HoldsNamedAnswer eventId records) :=
  inferInstanceAs (Decidable (∃ r ∈ records, _ ∧ _))

/-- What is looked for among records that a run can take is an answer that names the request, or
an event that closes it. -/
theorem isAnsweredFrom_eq_true_iff {p q : RunState} {records : List Record} {eventId : String}
    (h : p.steps (records.map Record.event) = .ok q) (halive : q.status.isTerminal = false) :
    isAnsweredFrom eventId (p.pending.map OpenRequest.eventId) records = true ↔
      HoldsNamedAnswer eventId records ∨
        eventId ∈ (p.clearedFrom (records.map Record.event)).map Prod.fst := by
  induction records generalizing p with
  | nil => simp [isAnsweredFrom, HoldsNamedAnswer, RunState.clearedFrom]
  | cons r rest ih =>
    rw [List.map_cons] at h
    have hgoes := RunState.ending?_eq_none_of_steps h halive
    obtain ⟨m, hmoves, hrest⟩ := RunState.steps_cons_eq_ok_iff.mp h
    have hrest' := ih hrest
    have hnamed : HoldsNamedAnswer eventId (r :: rest) ↔
        (r.event.isAnswer = true ∧ answerPrefix eventId <+: r.eventId.toList) ∨
          HoldsNamedAnswer eventId rest := by
      simp [HoldsNamedAnswer]
    rw [hnamed, List.map_cons]
    simp only [RunState.clearedFrom, RunState.step_eq_ok_iff.mpr hmoves, isAnsweredFrom]
    cases hmoves with
    | ends _ hmarks => simp [hgoes] at hmarks
    | answers _ _ hanswer hpending =>
      simp only [Option.map_none] at hrest'
      simp only [hanswer, if_true, hpending, Option.map_some, Bool.or_eq_true, hrest',
        List.isPrefixOf_iff_prefix, List.map_cons, List.mem_cons, true_and, beq_iff_eq,
        Option.some.injEq, @eq_comm _ eventId, answerPrefix]
      tauto
    | asks _ _ hanswer hrequest hfree =>
      have hid : r.event.toOpenRequest.eventId = r.eventId := rfl
      simp only [Option.map_some, hid] at hrest'
      simp only [hanswer, hrequest, hfree, Bool.false_eq_true, if_false, if_true, hrest',
        false_and, false_or]
    | passes _ hneutral =>
      simp only [RunState.pass_pending] at hrest'
      simp only [hneutral.2.1, hneutral.2.2, Bool.false_eq_true, if_false, hrest', false_and,
        false_or, RunState.pass_pending]
      cases p.pending <;> rfl

/-- A request that is open is taken for answered exactly if an answer on record seems to name it. -/
theorem isAnswered_eq_true_iff {history : List Record} {request : OpenRequest}
    (h : RunState.ofRecords history = .ok ⟨.paused, some request⟩)
    (hdistinct : (history.map Record.eventId).Nodup) :
    isAnswered request.eventId history = true ↔ HoldsNamedAnswer request.eventId history := by
  have hanswered : isAnswered request.eventId history = true ↔
      HoldsNamedAnswer request.eventId history ∨
        request.eventId ∈ (RunState.cleared history).map Prod.fst :=
    isAnsweredFrom_eq_true_iff h rfl
  have hopen := RunState.not_mem_closed_of_pending h rfl hdistinct
  exact hanswered.trans (or_iff_left hopen)

/-! ## The event that records an answer -/

theorem Event.problems_eq_nil_iff {event : Event} :
    event.problems = [] ↔
      (∀ x, event.confidence = some x → x.isUnitInterval = true) ∧
        isBlankText event.details = false ∧ isBlankText event.id = false ∧
        isBlankText event.runId = false ∧ isBlankText event.title = false := by
  simp only [problems, blankProblem, List.append_eq_nil_iff, ite_eq_right_iff, reduceCtorEq,
    imp_false, Bool.not_eq_true, and_assoc]
  refine and_congr_left fun _ => ?_
  cases event.confidence with
  | none => simp
  | some x => cases hx : x.isUnitInterval <;> simp [hx]

theorem Event.problems_normalized_eq_nil_iff {event : Event} :
    event.normalized.problems = [] ↔
      (∀ x, event.confidence = some x → x.isUnitInterval = true) ∧
        isBlankText event.details = false ∧ isBlankText event.id = false ∧
        isBlankText event.runId = false ∧ isBlankText event.title = false := by
  rw [problems_eq_nil_iff]
  simp only [normalized, Text.isBlankText_trim]

namespace Resolution

variable {resolution : Resolution} {target : Record} {at_ : Instant} {token : String}

theorem isBlankText_of_givenReason? {reason : String} (h : resolution.givenReason? = some reason) :
    isBlankText reason = false := by
  obtain ⟨hreason, hne⟩ := Option.filter_eq_some_iff.mp h
  obtain ⟨raw, -, rfl⟩ := Option.map_eq_some_iff.mp hreason
  rw [Text.isBlankText_trim, Bool.eq_false_iff, ne_eq, ← Text.trim_eq_empty_iff]
  simpa using hne

/-- The event that records an answer to a faultless request has no problems. -/
theorem problems_toEvent (hfaultless : target.event.problems = []) :
    (resolution.toEvent target at_ token).normalized.problems = [] := by
  obtain ⟨hconfidence, -, -, hrun, -⟩ := Event.problems_eq_nil_iff.mp hfaultless
  have hdetails : isBlankText (resolution.toEvent target at_ token).details = false := by
    have h : (resolution.toEvent target at_ token).details = resolution.givenReason?.getD
        (resolution.answer.title ++ " by " ++ trim resolution.approverId) := rfl
    rw [h]
    cases hreason : resolution.givenReason? with
    | some reason => exact isBlankText_of_givenReason? hreason
    | none =>
      refine Text.isBlankText_eq_false (c := 'b') ?_ (by decide)
      simp
  have hid : isBlankText (resolution.toEvent target at_ token).id = false := by
    have h : (resolution.toEvent target at_ token).id = "apr_" ++ target.eventId ++ "_" ++
        resolution.answer.name ++ "_" ++ at_.unpunctuated ++ "_" ++ token := rfl
    rw [h]
    exact Text.isBlankText_eq_false (c := 'p') (by simp) (by decide)
  have htitle : isBlankText resolution.answer.title = false := by
    cases resolution.answer <;> decide
  exact Event.problems_normalized_eq_nil_iff.mpr ⟨hconfidence, hdetails, hid, hrun, htitle⟩

theorem isBlankOption_signature (happrover : isBlankText resolution.approverId = false) :
    Text.isBlankOption (some (trim resolution.approverId)) = false := by
  rw [Text.isBlankOption, Option.all_some, Text.isBlankText_trim, happrover]

/-- The answer to an open request closes it. -/
theorem exists_moves_toEvent {request : OpenRequest}
    (happrover : isBlankText resolution.approverId = false) :
    ∃ status, RunState.Moves ⟨.paused, some request⟩
      (resolution.toEvent target at_ token).normalized ⟨status, none⟩ := by
  have hopen : RunState.IsOpen ⟨.paused, some request⟩ := ⟨rfl, by simp⟩
  have hsigned := isBlankOption_signature happrover
  have hstep : (resolution.toEvent target at_ token).normalized.step? =
      some resolution.answer.step := rfl
  cases hanswer : resolution.answer with
  | approved =>
    rw [hanswer] at hstep
    refine ⟨.approved, .answers hopen ?_ (isAnswer_toEvent _ _ _ _) rfl (.inl ⟨?_, rfl⟩)
      hsigned rfl⟩
    · rw [Event.ending?, hstep]
      rfl
    · show resolution.answer.status = .approved
      rw [hanswer]
      rfl
  | rejected =>
    rw [hanswer] at hstep
    refine ⟨.stopped, .ends rfl ?_⟩
    rw [Event.ending?, hstep]
    rfl

theorem decisionOf?_of_mem {history : List Record} {request : OpenRequest}
    (hdistinct : (history.map Record.eventId).Nodup) (hmem : target ∈ history)
    (hid : target.eventId = request.eventId) :
    Gate.decisionOf? history request = target.event.decision? := by
  have hfound : history.find? (fun r => r.eventId == request.eventId) = some target := by
    cases hfind : history.find? fun r => r.eventId == request.eventId with
    | none =>
      have hnone := List.find?_eq_none.mp hfind target hmem
      simp [hid] at hnone
    | some r =>
      have hr : r.eventId = request.eventId := by simpa using List.find?_some hfind
      rw [List.inj_on_of_nodup_map hdistinct (List.mem_of_find?_eq_some hfind) hmem
        (hr.trans hid.symm)]
  rw [Gate.decisionOf?, hfound, Option.bind_some]

/-- The answer to an open request keeps the rules for answers. -/
theorem kindRules_toEvent {history : List Record} {request : OpenRequest}
    (hdistinct : (history.map Record.eventId).Nodup) (hmem : target ∈ history)
    (hid : target.eventId = request.eventId)
    (happrover : isBlankText resolution.approverId = false) :
    Gate.kindRules (resolution.toEvent target at_ token).normalized history
      ⟨.paused, some request⟩ = [] := by
  have hdecision : (resolution.toEvent target at_ token).normalized.decision? =
      target.event.decision? := by
    show (target.event.decision?).filter (fun id => id != "") = target.event.decision?
    rw [Event.decision?, Option.filter_filter]
    simp only [Bool.and_self]
  have hkind : (resolution.toEvent target at_ token).normalized.kind = .approvalResolved := rfl
  rw [Gate.kindRules, hkind]
  refine Gate.answerRules_eq_nil_iff.mpr
    ⟨⟨request, rfl, ?_⟩, isBlankOption_signature happrover, rfl⟩
  intro decision hexpected
  rwa [hdecision, ← decisionOf?_of_mem hdistinct hmem hid]

/-- The answer to the open request of a run passes the gate and closes the request, when it is
dated behind the run. -/
theorem violations_toEvent {history : List Record} {request : OpenRequest}
    (hpaused : RunState.ofRecords history = .ok ⟨.paused, some request⟩)
    (hdistinct : (history.map Record.eventId).Nodup) (hmem : target ∈ history)
    (hid : target.eventId = request.eventId)
    (hlater : ∀ r ∈ history, r.timestamp ≤ at_.toMicros)
    (happrover : isBlankText resolution.approverId = false) :
    Gate.violations (resolution.toEvent target at_ token).normalized history = [] := by
  obtain ⟨status, hmoves⟩ : ∃ status, RunState.Moves ⟨.paused, some request⟩
      (resolution.toEvent target at_ token).normalized ⟨status, none⟩ :=
    exists_moves_toEvent happrover
  exact (Gate.violations_eq_nil_iff_of_last hlater).mpr
    ⟨_, _, hpaused, kindRules_toEvent hdistinct hmem hid happrover, hmoves⟩

end Resolution

end RunLedger
