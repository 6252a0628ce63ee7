/-
  Proofs/Ledger/Answerable.lean --- an open request can be answered.

  WHAT THIS FILE IS FOR.  A run that waits for a request goes on when the request is
  answered.  Here it is shown when that works: always, unless the run has an answer
  whose identifier begins like those of the answers to the request.  Such an answer
  need not be one to it: the identifier of the request may begin that of another
  one.  Then the request is taken for answered, and nothing answers it by its
  identifier.
-/
import RunLedger.Proofs.Approval.OpenRequest

set_option autoImplicit false

namespace RunLedger

open RunLedger.Text (trim isBlankText)

namespace MemoryStore

/-- No event on record has problems. -/
def Faultless (store : MemoryStore) : Prop :=
  ∀ runId, ∀ r ∈ store.readOrder runId, r.event.problems = []

theorem Faultless.of_chain {s t : MemoryStore} (h : s.Faultless) (hs : s.Sound)
    (hchain : Relation.ReflTransGen (fun s t => ∃ r, s.Accepts r t) s t) : t.Faultless := by
  induction hchain with
  | refl => exact h
  | tail hfirst haccepts ih =>
    obtain ⟨x, haccepts⟩ := haccepts
    intro runId r hr
    rcases (haccepts.mem_readOrder (hs.of_chain hfirst)).mp hr with hold | ⟨rfl, -⟩
    · exact ih runId r hold
    · exact haccepts.faultless

/-- The run waits for an answer to the request, whose identifier no other run uses, and `target`
is the record of the request. -/
structure WaitsFor (store : MemoryStore) (runId : String) (request : OpenRequest)
    (target : Record) : Prop where
  paused : RunState.ofRecords (store.readOrder runId) = .ok ⟨.paused, some request⟩
  mem : target ∈ store.readOrder runId
  asks : target.event.isRequest = true
  named : target.eventId = request.eventId
  unique : ¬ store.UsedElsewhere runId request.eventId

theorem exists_waitsFor {store : MemoryStore} {runId : String} {request : OpenRequest}
    (hpaused : RunState.ofRecords (store.readOrder runId) = .ok ⟨.paused, some request⟩)
    (hunique : ¬ store.UsedElsewhere runId request.eventId) :
    ∃ target, store.WaitsFor runId request target := by
  rcases RunState.exists_of_pending hpaused rfl with hstart | ⟨event, hmem, hasks, rfl⟩
  · cases hstart
  · obtain ⟨target, htarget, rfl⟩ := List.mem_map.mp hmem
    exact ⟨target, hpaused, htarget, hasks, rfl, hunique⟩

theorem WaitsFor.runId_eq {store : MemoryStore} {runId : String} {request : OpenRequest}
    {target : Record} (h : store.WaitsFor runId request target) (hs : store.Sound) :
    target.runId = runId := by
  obtain ⟨⟨log, hlog⟩, -⟩ := hs
  exact (hlog.mem_readOrder.mp h.mem).2

/-- The record `r`, with which the store `s` becomes `t`, closes the open request of the run and
nothing else. -/
structure Closes (s : MemoryStore) (runId : String) (request : OpenRequest) (r : Record)
    (t : MemoryStore) : Prop where
  accepted : s.Accepts r t
  closed : RunState.cleared (t.readOrder runId) =
    RunState.cleared (s.readOrder runId) ++ [(request.eventId, r.eventId)]
  others : ∀ other, other ≠ runId → t.readOrder other = s.readOrder other

end MemoryStore

namespace Ledger

variable {ledger : Ledger MemoryStore} {runId : String} {request : OpenRequest} {target : Record}

/-- The event with which the ledger puts an answer to the request `target` on record. -/
def answerTo (ledger : Ledger MemoryStore) (around : Surroundings) (resolution : Resolution)
    (target : Record) : Event :=
  (resolution.toEvent target
    (timeAfter (ledger.store.readOrder target.runId) (around.now (ledger.drawn + 1)))
    (around.token (ledger.drawn + 1))).normalized

/-- The request that a history is open with is refused only if it is taken for answered. -/
theorem requireOpen_of_paused {history : List Record}
    (hpaused : RunState.ofRecords history = .ok ⟨.paused, some request⟩)
    (hnamed : target.eventId = request.eventId) :
    requireOpen target history ledger =
      if isAnswered request.eventId history = true then
        (.error (.duplicateApproval request.eventId .resolved), ledger)
      else (.ok .paused, ledger) := by
  have hstate : stateOf history ledger = (.ok ⟨.paused, some request⟩, ledger) := by
    rw [stateOf, hpaused]
    rfl
  unfold requireOpen
  rw [hnamed]
  cases isAnswered request.eventId history with
  | true => rfl
  | false =>
    dsimp only
    rw [if_neg (by decide), if_neg (by decide), bind_apply, hstate]
    simp only [Option.any_some, beq_self_eq_true, Bool.and_self, if_true]
    rfl

/-- Opening the request that a run waits for looks at the answers on record only. -/
theorem openRequest_of_waitsFor (hs : ledger.store.Sound)
    (hwaits : ledger.store.WaitsFor runId request target) :
    openRequest request.eventId ledger =
      if isAnswered request.eventId (ledger.store.readOrder runId) = true then
        (.error (.duplicateApproval request.eventId .resolved), ledger)
      else (.ok (target, ledger.store.readOrder runId, .paused), ledger) := by
  have hrun := hwaits.runId_eq hs
  obtain ⟨⟨log, hlog⟩, -⟩ := hs
  have hfound : ledger.store.withId request.eventId = [target] := by
    rw [← hwaits.named]
    rcases hlog.withId_cases hwaits.mem with ⟨hfound, -⟩ | ⟨_, _, _, -, hused⟩
    · exact hfound
    · exact absurd (hwaits.named ▸ hused) hwaits.unique
  rw [openRequest, bind_apply, recordOfEvent_apply, hfound]
  dsimp only
  rw [hwaits.asks, if_neg (by decide), bind_apply, readRun_apply, hrun]
  dsimp only
  rw [bind_apply, requireOpen_of_paused hwaits.paused hwaits.named]
  cases isAnswered request.eventId (ledger.store.readOrder runId) <;> rfl

theorem stateOf_eq_ok {history : List Record} {state : RunState} {next : Ledger MemoryStore}
    (h : stateOf history ledger = (.ok state, next)) :
    RunState.ofRecords history = .ok state ∧ next = ledger := by
  unfold stateOf at h
  cases hcurrent : RunState.ofRecords history with
  | error conflict =>
    rw [hcurrent] at h
    cases (Prod.mk.inj h).1
  | ok current =>
    rw [hcurrent] at h
    cases h
    exact ⟨rfl, rfl⟩

/-- What is open in a history is the request that the history is paused with. -/
theorem requireOpen_eq_ok {history : List Record} {before : RunStatus} {next : Ledger MemoryStore}
    (h : requireOpen target history ledger = (.ok before, next)) :
    next = ledger ∧ ∃ request, RunState.ofRecords history = .ok ⟨.paused, some request⟩ ∧
      request.eventId = target.eventId := by
  unfold requireOpen at h
  cases hanswered : isAnswered target.eventId history with
  | true =>
    rw [hanswered] at h
    cases (Prod.mk.inj h).1
  | false =>
    rw [hanswered] at h
    dsimp only at h
    rw [if_neg (by decide)] at h
    obtain ⟨⟨status, pending⟩, _, hstate, hopen⟩ := bind_eq_ok_iff.mp h
    obtain ⟨hhistory, rfl⟩ := stateOf_eq_ok hstate
    split at hopen
    · rename_i hpaused
      rw [Bool.and_eq_true, beq_iff_eq, Option.any_eq_true] at hpaused
      obtain ⟨rfl, request, rfl, hid⟩ := hpaused
      cases hopen
      exact ⟨rfl, request, hhistory, beq_iff_eq.mp hid⟩
    · cases (Prod.mk.inj hopen).1

/-- What can be opened is a request that its run waits for. -/
theorem exists_waitsFor_of_openRequest (hs : ledger.store.Sound) {eventId : String}
    {history : List Record} {before : RunStatus} {next : Ledger MemoryStore}
    (h : openRequest eventId ledger = (.ok (target, history, before), next)) :
    next = ledger ∧ history = ledger.store.readOrder target.runId ∧ target.eventId = eventId ∧
      ∃ request, ledger.store.WaitsFor target.runId request target := by
  obtain ⟨hfound, hasks, rfl, hopen⟩ := openRequest_eq_ok h
  obtain ⟨rfl, request, hpaused, hnamed⟩ := requireOpen_eq_ok hopen
  obtain ⟨⟨log, hlog⟩, -⟩ := hs
  obtain ⟨hmem, hid⟩ := hlog.mem_withId.mp (hfound ▸ List.mem_singleton_self target)
  refine ⟨rfl, rfl, hid, request, hpaused, hlog.mem_readOrder.mpr ⟨hmem, rfl⟩, hasks, hnamed.symm,
    ?_⟩
  rw [hlog.usedElsewhere_iff, hnamed, hid, hfound]
  simp

/-! ## The answer is accepted -/

section

variable {around : Surroundings} {resolution : Resolution}

theorem normalized_answerTo : (ledger.answerTo around resolution target).normalized =
    ledger.answerTo around resolution target :=
  Event.normalized_normalized _

theorem answerTo_runId :
    (ledger.answerTo around resolution target).runId = trim target.runId := rfl

theorem answerTo_timestamp : (ledger.answerTo around resolution target).timestamp =
    (timeAfter (ledger.store.readOrder target.runId)
      (around.now (ledger.drawn + 1))).toMicros := rfl

theorem answerTo_runId_of_waitsFor (hs : ledger.store.Sound)
    (hwaits : ledger.store.WaitsFor runId request target) :
    (ledger.answerTo around resolution target).runId = runId := by
  have hrun := hwaits.runId_eq hs
  obtain ⟨⟨log, hlog⟩, -⟩ := hs
  have hnormal : trim target.runId = target.runId :=
    congrArg Event.runId (hlog.normal target (hlog.mem_readOrder.mp hwaits.mem).1)
  rw [answerTo_runId, hnormal, hrun]

/-- The answer is dated behind the run. -/
theorem lt_answerTo (hs : ledger.store.Sound)
    (hwaits : ledger.store.WaitsFor runId request target) :
    ∀ r ∈ ledger.store.readOrder runId,
      r.timestamp < (ledger.answerTo around resolution target).timestamp := by
  rw [answerTo_timestamp, hwaits.runId_eq hs]
  exact hs.lt_timeAfter runId _

/-- The answer to the request that a run waits for comes last, when it is accepted. -/
theorem comesLast_of_answerTo (hs : ledger.store.Sound)
    (hwaits : ledger.store.WaitsFor runId request target) {recorded : Record}
    {answered : MemoryStore} (hevent : recorded.event = ledger.answerTo around resolution target)
    (haccepts : ledger.store.Accepts recorded answered) :
    recorded.runId = runId ∧ ledger.store.ComesLast recorded answered := by
  have hrun : recorded.runId = runId := by
    rw [Record.runId, hevent, answerTo_runId_of_waitsFor hs hwaits]
  refine ⟨hrun, haccepts.comesLast hs ?_⟩
  rw [hrun, Record.timestamp, hevent]
  exact lt_answerTo hs hwaits

/-- The answer to the request that a run waits for closes the request, when it is accepted. -/
theorem closes_of_accepts (hs : ledger.store.Sound)
    (hwaits : ledger.store.WaitsFor runId request target) {recorded : Record}
    {answered : MemoryStore} (hevent : recorded.event = ledger.answerTo around resolution target)
    (haccepts : ledger.store.Accepts recorded answered) :
    ledger.store.Closes runId request recorded answered := by
  obtain ⟨rfl, hlast⟩ := comesLast_of_answerTo hs hwaits hevent haccepts
  obtain ⟨current, final, hcurrent, hmoves, -⟩ := hlast.exists_moves
  obtain rfl : current = ⟨.paused, some request⟩ := by
    rw [hwaits.paused] at hcurrent
    exact (Except.ok.inj hcurrent).symm
  have hfree : final.pending = none := by
    apply hmoves.pending_of_kind
    rw [hevent]
    rfl
  refine ⟨haccepts, ?_, fun other hother => MemoryStore.readOrder_other haccepts.appended hother⟩
  rw [hlast.read, RunState.cleared, List.map_append, RunState.clearedFrom_append hwaits.paused]
  simp only [List.map_cons, List.map_nil, RunState.clearedFrom,
    RunState.step_eq_ok_iff.mpr hmoves, hfree]
  rfl

/-- An answer that is recorded is the one to the request that a run waits for. -/
theorem waitsFor_of_recordAnswer (hs : ledger.store.Sound) {eventId : String}
    {asked recorded : Record} {before : RunStatus} {submitted : Ledger MemoryStore}
    (h : recordAnswer around eventId resolution ledger =
      (.ok (asked, recorded, before), submitted)) :
    ledger.store.withId eventId = [asked] ∧ before = .paused ∧
      (∃ request, ledger.store.WaitsFor asked.runId request asked) ∧
      recorded.event = ledger.answerTo around resolution asked ∧
      ledger.store.Accepts recorded submitted.store ∧ submitted.drawn = ledger.drawn + 1 := by
  obtain ⟨history, opened, hopen, hsubmit⟩ := exists_of_recordAnswer h
  obtain ⟨hfound, -⟩ := openRequest_eq_ok hopen
  obtain ⟨rfl, rfl, hid, request, hwaits⟩ := exists_waitsFor_of_openRequest hs hopen
  obtain ⟨hevent, haccepts, hdrawn⟩ := submit_eq_ok_iff.mp hsubmit
  refine ⟨hfound, ?_, ⟨request, hwaits⟩, hevent, haccepts, hdrawn⟩
  rw [← hid, hwaits.named, openRequest_of_waitsFor hs hwaits] at hopen
  split at hopen
  · cases (Prod.mk.inj hopen).1
  · cases hopen
    rfl

/-- The answer to the request that a run waits for is accepted, and closes the request. -/
theorem exists_closes (hs : ledger.store.Sound) (hfaultless : ledger.store.Faultless)
    (hwaits : ledger.store.WaitsFor runId request target)
    (happrover : isBlankText resolution.approverId = false)
    (hfresh : ∀ r ∈ ledger.store.readOrder runId,
      r.eventId ≠ (ledger.answerTo around resolution target).id) :
    ∃ recorded answered, recorded.event = ledger.answerTo around resolution target ∧
      ledger.store.Closes runId request recorded answered := by
  have hrun : (ledger.answerTo around resolution target).runId = runId :=
    answerTo_runId_of_waitsFor hs hwaits
  have hlast : ∀ r ∈ ledger.store.readOrder runId,
      r.timestamp ≤ (ledger.answerTo around resolution target).timestamp :=
    fun r hr => le_of_lt (lt_answerTo hs hwaits r hr)
  have hgated : Gate.violations (ledger.answerTo around resolution target)
      (ledger.store.readOrder runId) = [] :=
    Resolution.violations_toEvent hwaits.paused (hs.2 runId).distinct hwaits.mem hwaits.named
      hlast happrover
  have hproblems : (ledger.answerTo around resolution target).problems = [] :=
    Resolution.problems_toEvent (hfaultless runId target hwaits.mem)
  obtain ⟨recorded, answered, hevent, haccepts⟩ := MemoryStore.exists_accepts hs
    normalized_answerTo hproblems (hrun ▸ hgated) (hrun ▸ hfresh)
  exact ⟨recorded, answered, hevent, closes_of_accepts hs hwaits hevent haccepts⟩

/-- When no answer on record seems to name the request that a run waits for, the answer to it is
recorded. -/
theorem exists_recordAnswer (hs : ledger.store.Sound) (hfaultless : ledger.store.Faultless)
    (hwaits : ledger.store.WaitsFor runId request target)
    (hnone : ¬ HoldsNamedAnswer request.eventId (ledger.store.readOrder runId))
    (happrover : isBlankText resolution.approverId = false)
    (hfresh : ∀ r ∈ ledger.store.readOrder runId,
      r.eventId ≠ (ledger.answerTo around resolution target).id) :
    ∃ recorded submitted, recorded.event = ledger.answerTo around resolution target ∧
      ledger.store.Closes runId request recorded submitted.store ∧
      recordAnswer around request.eventId resolution ledger =
        (.ok (target, recorded, .paused), submitted) := by
  have hrun := hwaits.runId_eq hs
  obtain ⟨recorded, answered, hevent, hcloses⟩ :=
    exists_closes hs hfaultless hwaits happrover hfresh
  refine ⟨recorded, ⟨answered, ledger.drawn + 1⟩, hevent, hcloses, ?_⟩
  have hunanswered : ¬ isAnswered request.eventId (ledger.store.readOrder runId) = true :=
    fun h => hnone ((isAnswered_eq_true_iff hwaits.paused (hs.2 runId).distinct).mp h)
  have hopen := openRequest_of_waitsFor hs hwaits
  rw [if_neg hunanswered] at hopen
  have hsubmit : submit (resolution.toEvent target
        (timeAfter (ledger.store.readOrder runId) (around.now (ledger.drawn + 1)))
        (around.token (ledger.drawn + 1))) { ledger with drawn := ledger.drawn + 1 } =
      (.ok recorded, ⟨answered, ledger.drawn + 1⟩) := by
    refine submit_eq_ok_iff.mpr ⟨?_, hcloses.accepted, rfl⟩
    rw [hevent, answerTo, hrun]
  rw [recordAnswer, bind_apply, hopen]
  dsimp only
  rw [bind_apply, readClock]
  dsimp only
  rw [bind_apply, drawToken]
  dsimp only
  rw [bind_apply, hsubmit]
  rfl

end

/-! ## Answering what a run waits for -/

theorem faultless_after (operations : List (Operation MemoryStore)) :
    (inMemory.after operations).store.Faultless := by
  have hempty : MemoryStore.empty.Faultless := by
    intro runId r hr
    rw [MemoryStore.holds_empty.mem_readOrder] at hr
    cases hr.1
  exact hempty.of_chain MemoryStore.sound_empty
    (reflTransGen_after stepsOf_accepts inMemory operations)

/-- Whatever has been asked of a fresh ledger, in whatever order: a run that waits for a request
whose identifier no other run uses has the request on record, and who answers it by its
identifier

* is told that it has been answered, if an answer in the run has an identifier that begins like
  those of the answers to the request, and changes nothing;
* otherwise, if the approver has a name and the identifier of the answer is new in the run, has
  the answer recorded, which closes this request and nothing else, and gets the outcome back. -/
theorem open_request_is_answered (operations : List (Operation MemoryStore)) (runId : String)
    (request : OpenRequest)
    (hpaused : RunState.ofRecords ((inMemory.after operations).store.readOrder runId) =
      .ok ⟨.paused, some request⟩)
    (hunique : ¬ (inMemory.after operations).store.UsedElsewhere runId request.eventId) :
    ∃ target, (inMemory.after operations).store.WaitsFor runId request target ∧
      ∀ (strategies : Strategies MemoryStore) (around : Surroundings) (id : String)
        (resolution : Resolution), strategies.OnlyDescribe → trim id = request.eventId →
        (HoldsNamedAnswer request.eventId ((inMemory.after operations).store.readOrder runId) →
          resolve strategies around (.event id) resolution (inMemory.after operations) =
            (.error (.duplicateApproval request.eventId .resolved), inMemory.after operations)) ∧
        (¬ HoldsNamedAnswer request.eventId
            ((inMemory.after operations).store.readOrder runId) →
          isBlankText resolution.approverId = false →
          (∀ r ∈ (inMemory.after operations).store.readOrder runId,
            r.eventId ≠ ((inMemory.after operations).answerTo around resolution target).id) →
          ∃ recorded answered outcome,
            recorded.event = (inMemory.after operations).answerTo around resolution target ∧
            (inMemory.after operations).store.Closes runId request recorded answered ∧
            Outcome.ofAnswer? (resolve strategies around (.event id) resolution
              (inMemory.after operations)).1 = some outcome ∧
            outcome.targetEventId = request.eventId ∧ outcome.eventId = recorded.eventId ∧
            Relation.ReflTransGen (fun s t => ∃ r, s.Accepts r t) answered
              (resolve strategies around (.event id) resolution
                (inMemory.after operations)).2.store) := by
  have hs := sound_after operations
  have hfaultless := faultless_after operations
  generalize inMemory.after operations = ledger at *
  obtain ⟨target, hwaits⟩ := MemoryStore.exists_waitsFor hpaused hunique
  refine ⟨target, hwaits, ?_⟩
  intro strategies around id resolution hdescribe hid
  have hfound : targetEvent (.event id) ledger = (.ok request.eventId, ledger) := by
    rw [← hid]
    rfl
  constructor
  · intro hnamed
    have hanswered := (isAnswered_eq_true_iff hpaused (hs.2 runId).distinct).mpr hnamed
    have hopen := openRequest_of_waitsFor hs hwaits
    rw [if_pos hanswered] at hopen
    exact resolve_of_refused hfound hopen
  · intro hnone happrover hfresh
    obtain ⟨recorded, submitted, hevent, hcloses, hrecorded⟩ :=
      exists_recordAnswer hs hfaultless hwaits hnone happrover hfresh
    obtain ⟨outcome, houtcome, htarget, hrecord, -⟩ :
        ∃ outcome, Outcome.ofAnswer?
          (resolve strategies around (.event id) resolution ledger).1 = some outcome ∧ _ :=
      exists_outcome_of_recorded hfound hrecorded
    refine ⟨recorded, submitted.store, outcome, hevent, hcloses, houtcome,
      htarget.trans hwaits.named, hrecord, ?_⟩
    rw [resolve_of_recorded hfound hrecorded]
    exact (stepsOf_accepts.conclude (hdescribe.changeBy _) around target recorded .paused
      resolution.answer).changes submitted

/-- The one request of a run is answered by its identifier. -/
theorem letter_is_answered_by_its_identifier :
    ∃ outcome, Outcome.ofAnswer? (resolve .none stillSurroundings (.event " ask ")
      ⟨.rejected, "bob", none⟩ (inMemory.after [.submit letterRequest])).1 = some outcome ∧
      outcome.targetEventId = "ask" := by
  have hs := sound_after [.submit letterRequest]
  have hunique : ¬ (inMemory.after [.submit letterRequest]).store.UsedElsewhere "run" "ask" := by
    obtain ⟨⟨log, hlog⟩, -⟩ := hs
    rw [hlog.usedElsewhere_iff]
    decide +kernel
  obtain ⟨target, hwaits, hanswered⟩ := open_request_is_answered [.submit letterRequest] "run"
    letterRequest.normalized.toOpenRequest (by decide +kernel) hunique
  obtain ⟨-, hrecorded⟩ := hanswered .none stillSurroundings " ask " ⟨.rejected, "bob", none⟩
    (fun _ _ h => by cases h) (by decide +kernel)
  have hfresh : ∀ r ∈ (inMemory.after [.submit letterRequest]).store.readOrder "run",
      r.eventId ≠ ((inMemory.after [.submit letterRequest]).answerTo stillSurroundings
        ⟨.rejected, "bob", none⟩ target).id := by
    have hone : ∀ x ∈ (inMemory.after [.submit letterRequest]).store.readOrder "run",
        ∀ r ∈ (inMemory.after [.submit letterRequest]).store.readOrder "run",
          r.eventId ≠ ((inMemory.after [.submit letterRequest]).answerTo stillSurroundings
            ⟨.rejected, "bob", none⟩ x).id := by
      decide +kernel
    exact hone target hwaits.mem
  obtain ⟨_, _, outcome, -, -, houtcome, htarget, -⟩ :=
    hrecorded (by decide +kernel) (by decide +kernel) hfresh
  exact ⟨outcome, houtcome, htarget⟩

/-! ### Where one identifier begins another -/

/-- A request with an identifier, some milliseconds after the start. -/
def letterRequestNamed (id : String) (millis : Int) : Event :=
  { letterRequest with id := id, timestamp := Time.Instant.epoch.addMillis millis }

/-- An answer with the identifier of one to the request `a_b`. -/
def longNameAnswer : Event :=
  { letterAnswer with id := "apr_a_b_approved_19700101T000000009000Z_t" }

/-- The request `a_b`, the answer to it, and then the request `a`. -/
def longThenShort : List (Operation MemoryStore) :=
  [.submit (letterRequestNamed "a_b" 5), .submit longNameAnswer,
    .submit (letterRequestNamed "a" 20)]

/-- The store that holds the three. -/
def longThenShortStore : MemoryStore :=
  (((MemoryStore.empty.append (letterRequestNamed "a_b" 5).normalized).2.append
    longNameAnswer.normalized).2.append (letterRequestNamed "a" 20).normalized).2

theorem after_longThenShort : inMemory.after longThenShort = ⟨longThenShortStore, 0⟩ := by
  simp only [longThenShort, after, inMemory, Ledger.on]
  rw [next_submit_of_ordered (by decide +kernel) (by decide +kernel) (by decide +kernel),
    next_submit_of_ordered (by decide +kernel) (by decide +kernel) (by decide +kernel),
    next_submit_of_ordered (by decide +kernel) (by decide +kernel) (by decide +kernel)]
  rfl

theorem readOrder_longThenShort :
    longThenShortStore.readOrder "run" = (longThenShortStore.run "run").records :=
  MemoryStore.readOrder_of_ordered (by decide +kernel)

theorem exists_waitsFor_longThenShort :
    ∃ target, longThenShortStore.WaitsFor "run" (letterRequestNamed "a" 20).toOpenRequest
      target := by
  refine MemoryStore.exists_waitsFor ?_ ?_
  · rw [readOrder_longThenShort]
    decide +kernel
  · obtain ⟨⟨log, hlog⟩, -⟩ := sound_after longThenShort
    rw [after_longThenShort] at hlog
    rintro ⟨other, hother, r, hr, -⟩
    obtain ⟨hmem, hrun⟩ := hlog.mem_readOrder.mp hr
    have hall : ∀ r ∈ longThenShortStore.records, r.runId = "run" := by decide +kernel
    exact hother (hrun ▸ hall r (hlog.mem_records.mpr hmem))

/-- The run waits for the request `a`, nobody has used the identifier that its answer would get, and
still the request is refused as answered: the answer on record is the one to `a_b`. -/
theorem short_name_is_taken_for_answered :
    ∃ target, (inMemory.after longThenShort).store.WaitsFor "run"
        (letterRequestNamed "a" 20).toOpenRequest target ∧
      (∀ r ∈ (inMemory.after longThenShort).store.readOrder "run", r.eventId ≠
        ((inMemory.after longThenShort).answerTo stillSurroundings
          ⟨.approved, "alice", none⟩ target).id) ∧
      resolve .none stillSurroundings (.event "a") ⟨.approved, "alice", none⟩
          (inMemory.after longThenShort) =
        (.error (.duplicateApproval "a" .resolved), inMemory.after longThenShort) := by
  have hs := sound_after longThenShort
  rw [after_longThenShort] at hs ⊢
  obtain ⟨target, hwaits⟩ := exists_waitsFor_longThenShort
  refine ⟨target, hwaits, ?_, ?_⟩
  · have hrun := hwaits.runId_eq hs
    have hmem := hwaits.mem
    rw [answerTo, hrun, readOrder_longThenShort]
    rw [readOrder_longThenShort] at hmem
    have hall : ∀ x ∈ (longThenShortStore.run "run").records,
        ∀ r ∈ (longThenShortStore.run "run").records, r.eventId ≠
          (Resolution.toEvent ⟨.approved, "alice", none⟩ x
            (timeAfter (longThenShortStore.run "run").records .epoch) "t").normalized.id := by
      decide +kernel
    exact hall target hmem
  · have hnamed : isAnswered "a" (longThenShortStore.readOrder "run") = true := by
      rw [readOrder_longThenShort]
      decide +kernel
    have hopen : openRequest "a" (Ledger.mk longThenShortStore 0) = _ :=
      openRequest_of_waitsFor hs hwaits
    exact resolve_of_refused rfl (hopen.trans (if_pos hnamed))

end Ledger

end RunLedger
