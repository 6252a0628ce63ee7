/-
  Proofs/Approval/RecordedAnswer.lean --- what a recorded answer is an answer to.

  WHAT THIS FILE IS FOR.  Events that answer come in two shapes: those of the kind
  for answers, and others that say of themselves that they are approved or
  rejected.  Both close the open request of their run.  The gate looks closely at
  the first shape only: such an answer closes a request, is for the policy decision
  of that request, and is signed and dated, wherever it is read.  An answer of
  the other shape may be for any decision, and an event of the kind for answers
  that also marks the end of its run need not say what the answer is.
-/
import RunLedger.Proofs.Approval.OpenRequest

set_option autoImplicit false

namespace RunLedger

/-! ## What the gate does not look at -/

namespace RunState

/-- Events that have the same effect wherever a run stands can take each other's place. -/
theorem steps_replace {event event' : Event} (hstep : ∀ p : RunState, p.step event' = p.step event)
    (before after : List Event) (p : RunState) :
    p.steps (before ++ event' :: after) = p.steps (before ++ event :: after) := by
  induction before generalizing p with
  | nil =>
    show p.steps (event' :: after) = p.steps (event :: after)
    rw [steps, steps, hstep]
  | cons first rest ih =>
    rw [List.cons_append, List.cons_append, steps, steps]
    cases p.step first with
    | error conflict => rfl
    | ok q => exact ih q

end RunState

namespace Gate

/-- What neither the rules for the kind of an event nor its effect depend on, its verdict does not
depend on. -/
theorem violations_congr {event event' : Event} {history : List Record}
    (htime : event'.timestamp = event.timestamp)
    (hkind : ∀ p, kindRules event' history p = kindRules event history p)
    (hstep : ∀ p : RunState, p.step event' = p.step event) :
    violations event' history = violations event history := by
  have hplace : readPosition event' history = readPosition event history := by
    unfold readPosition
    rw [htime]
  have hwith : RunState.ofEvents (historyWith event' history) =
      RunState.ofEvents (historyWith event history) := by
    unfold historyWith
    rw [hplace]
    exact RunState.steps_replace hstep _ _ _
  unfold violations
  simp only [hkind, hwith]

end Gate

namespace Event

/-- The event, for another policy decision or for none. -/
def withDecision (event : Event) (decisionId : Option String) : Event :=
  { event with approval := { event.approval with decisionId := decisionId } }

/-- The event with another state of the approval. -/
def withStatus (event : Event) (status : ApprovalStatus) : Event :=
  { event with approval := { event.approval with status := status } }

theorem normalized_withDecision (event : Event) (decisionId : Option String) :
    (event.withDecision decisionId).normalized = event.normalized.withDecision decisionId := rfl

theorem normalized_withStatus (event : Event) (status : ApprovalStatus) :
    (event.withStatus status).normalized = event.normalized.withStatus status := rfl

theorem step_withDecision (event : Event) (decisionId : Option String) (p : RunState) :
    p.step (event.withDecision decisionId) = p.step event := rfl

theorem step_withStatus {event : Event} (hends : event.ending?.isSome = true)
    (status : ApprovalStatus) (p : RunState) : p.step (event.withStatus status) = p.step event := by
  obtain ⟨final, hfinal⟩ := Option.isSome_iff_exists.mp hends
  have hsame : (event.withStatus status).ending? = some final := hfinal
  unfold RunState.step
  rw [hfinal, hsame]
  rfl

end Event

namespace Gate

/-- An event that is not of the kind for answers may be for any policy decision. -/
theorem violations_withDecision {event : Event} (hkind : event.kind ≠ .approvalResolved)
    (decisionId : Option String) (history : List Record) :
    violations (event.withDecision decisionId) history = violations event history := by
  refine violations_congr rfl ?_ ?_
  · intro p
    have hsame : (event.withDecision decisionId).kind = event.kind := rfl
    unfold kindRules
    rw [hsame]
    cases hevent : event.kind with
    | approvalResolved => exact absurd hevent hkind
    | _ => rfl
  · intro p
    exact event.step_withDecision decisionId p

/-- An event of the kind for answers that marks the end of its run may say anything about the
approval. -/
theorem violations_withStatus {event : Event} (hkind : event.kind = .approvalResolved)
    (hends : event.ending?.isSome = true) (status : ApprovalStatus) (history : List Record) :
    violations (event.withStatus status) history = violations event history := by
  refine violations_congr rfl ?_ ?_
  · intro p
    have hsame : (event.withStatus status).kind = event.kind := rfl
    unfold kindRules
    rw [hsame, hkind]
    rfl
  · intro p
    exact Event.step_withStatus hends status p

end Gate

/-! ## What closes a request -/

/-- In the history of a run the record `asked` is the open request when `closer` is read, and none
is open behind it. -/
def ClosesIn (history : List Record) (asked closer : Record) : Prop :=
  ∃ before after p q, history = before ++ closer :: after ∧ asked ∈ before ∧
    RunState.ofRecords before = .ok p ∧ p.pending = some asked.event.toOpenRequest ∧
    p.step closer.event = .ok q ∧ q.pending = none

theorem ClosesIn.mem {history : List Record} {asked closer : Record}
    (h : ClosesIn history asked closer) : closer ∈ history := by
  obtain ⟨before, after, -, -, rfl, -⟩ := h
  simp

namespace GatedHistory

variable {history : List Record} {r asked closer : Record}

/-- An event of the kind for answers found a request that was open, is signed and dated, and says
what the answer is unless it ends its run. -/
theorem exists_asked (h : GatedHistory history) (hr : r ∈ history)
    (hkind : r.event.kind = .approvalResolved) :
    (∃ asked, ClosesIn history asked r) ∧
      Text.isBlankOption r.event.approval.resolvedBy = false ∧
      r.event.approval.resolvedAt.isSome = true ∧
      (r.event.ending? = none → r.event.approval.status.isResolved = true) := by
  obtain ⟨before, after, hsplit⟩ := List.append_of_mem hr
  obtain ⟨p, q, hp, hrules, hmoves⟩ := h.exists_moves hsplit
  rw [Gate.kindRules, hkind] at hrules
  obtain ⟨⟨request, hpending, -⟩, hsigned, hdated⟩ := Gate.answerRules_eq_nil_iff.mp hrules
  refine ⟨?_, hsigned, hdated, ?_⟩
  · rcases RunState.exists_of_pending hp hpending with hstart | ⟨event, hmem, -, rfl⟩
    · cases hstart
    · obtain ⟨asked, hasked, rfl⟩ := List.mem_map.mp hmem
      exact ⟨asked, before, after, p, q, hsplit, hasked, hp, hpending,
        RunState.step_eq_ok_iff.mpr hmoves, hmoves.pending_of_kind hkind⟩
  · intro hgoes
    apply hmoves.isResolved hgoes
    rw [Event.isAnswer, hkind]
    rfl

/-- An event of the kind for answers is for the policy decision of the request that it closes. -/
theorem decision_of_closesIn (h : GatedHistory history) (hcloses : ClosesIn history asked closer)
    (hkind : closer.event.kind = .approvalResolved) {decision : String}
    (hdecision : asked.event.decision? = some decision) :
    closer.event.decision? = some decision := by
  obtain ⟨before, after, p, -, hsplit, hasked, hp, hpending, -, -⟩ := hcloses
  obtain ⟨p', -, hp', hrules, -⟩ := h.exists_moves hsplit
  obtain rfl : p = p' := by
    rw [hp] at hp'
    exact Except.ok.inj hp'
  rw [Gate.kindRules, hkind] at hrules
  obtain ⟨⟨request, hrequest, hmatches⟩, -, -⟩ := Gate.answerRules_eq_nil_iff.mp hrules
  obtain rfl : asked.event.toOpenRequest = request := by
    rw [hpending] at hrequest
    exact Option.some.inj hrequest
  have hdistinct : (before.map Record.eventId).Nodup := by
    have hall := h.distinct
    rw [hsplit, List.map_append] at hall
    exact (List.nodup_append.mp hall).1
  apply hmatches
  rw [Resolution.decisionOf?_of_mem hdistinct hasked rfl, hdecision]

end GatedHistory

namespace Ledger

/-! ## Submissions that differ in what the gate does not look at -/

/-- Whether an event is recorded is decided by its place, its problems and its verdict. -/
theorem isOk_submit_congr {event event' : Event} {ledger : Ledger MemoryStore}
    (hid : event'.normalized.id = event.normalized.id)
    (hrun : event'.normalized.runId = event.normalized.runId)
    (hproblems : event'.normalized.problems = event.normalized.problems)
    (hgate : ∀ history, Gate.violations event'.normalized history =
      Gate.violations event.normalized history) :
    (submit event' ledger).1.isOk = (submit event ledger).1.isOk := by
  have hstored (e : Event) : (call (EventStore.append e.normalized) ledger).1.isOk =
      !(ledger.store.run e.normalized.runId).ids.contains e.normalized.id := by
    have happend : (EventStore.append e.normalized : StoreM MemoryStore _) ledger.store =
        ledger.store.append e.normalized := rfl
    unfold call
    rw [happend, MemoryStore.append, Event.normalized_normalized]
    dsimp only
    cases (ledger.store.run e.normalized.runId).ids.contains e.normalized.id with
    | true => rfl
    | false => rfl
  rw [submit_apply, submit_apply, hproblems, hrun, hgate]
  cases event.normalized.problems with
  | cons problem rest => rfl
  | nil =>
    dsimp only
    cases Gate.violations event.normalized (ledger.store.readOrder event.normalized.runId) with
    | cons violation rest => rfl
    | nil =>
      dsimp only
      rw [hstored, hstored, hid, hrun]

/-! ## Answers on record -/

/-! ### A request and what closes it -/

/-- The request about the letter, for a policy decision. -/
def letterDecided : Event := letterRequest.withDecision (some "letter")

/-- An answer to the request that is for its policy decision. -/
def letterYes : Event := letterAnswer.withDecision (some "letter")

/-- An observation that says of itself that it is approved, for another policy decision. -/
def invoiceYes : Event :=
  { letterAnswer.withDecision (some "invoice") with kind := .observation, requiresApproval := true }

/-- An event of the kind for answers that stops the run and does not say what the answer is. -/
def letterStop : Event :=
  { letterYes.withStatus .notRequired with origin := some ⟨"letters", "run_stopped"⟩ }

/-- An event that comes after the request, is recorded and leaves no request open closes it. -/
theorem exists_closesIn_letter (status : RunStatus) {event : Event}
    (hok : (submit event (inMemory.after [.submit letterDecided])).1.isOk = true)
    (hrun : event.normalized.runId = "run")
    (hlast : ∀ x ∈ (inMemory.after [.submit letterDecided]).store.readOrder "run",
      x.timestamp ≤ event.normalized.timestamp)
    (hstep : RunState.step ⟨.paused, some letterDecided.normalized.toOpenRequest⟩ event.normalized =
      .ok ⟨status, none⟩) :
    ∃ asked closer, asked.event = letterDecided.normalized ∧ closer.event = event.normalized ∧
      ClosesIn ((inMemory.after [.submit letterDecided, .submit event]).store.readOrder "run")
        asked closer := by
  obtain ⟨r, next, hsubmit⟩ := exists_of_isOk hok
  obtain ⟨hevent, haccepts, -⟩ := submit_eq_ok_iff.mp hsubmit
  have hnext : inMemory.after [.submit letterDecided, .submit event] = next := by
    have hcall := Call.next_submit event (inMemory.after [.submit letterDecided])
    rwa [hsubmit] at hcall
  have hrecordRun : r.runId = "run" := by rw [Record.runId, hevent, hrun]
  have hread := haccepts.readOrder_of_last (sound_after _)
    (by rw [hrecordRun, Record.timestamp, hevent]; exact hlast)
  rw [hrecordRun] at hread
  obtain ⟨asked, hasked, hrequest⟩ : ∃ asked ∈
      (inMemory.after [.submit letterDecided]).store.readOrder "run",
      asked.event = letterDecided.normalized := by decide +kernel
  have hpaused : RunState.ofRecords
      ((inMemory.after [.submit letterDecided]).store.readOrder "run") =
        .ok ⟨.paused, some letterDecided.normalized.toOpenRequest⟩ := by decide +kernel
  refine ⟨asked, r, hrequest, hevent, _, [], _, ⟨status, none⟩, hnext ▸ hread, hasked, hpaused, ?_,
    ?_, rfl⟩
  · rw [hrequest]
  · rw [hevent, hstep]

/-- Whatever has been asked of a fresh ledger, in whatever order: where a request for an approval of
a policy decision is closed by an event of the kind for answers, that event is for the same policy
decision.  An event of another kind is recorded or not whichever decision it is for. -/
theorem answer_is_for_its_decision (operations : List (Operation MemoryStore)) :
    (∀ runId asked closer decision,
      ClosesIn ((inMemory.after operations).store.readOrder runId) asked closer →
      closer.event.kind = .approvalResolved → asked.event.decision? = some decision →
      closer.event.decision? = some decision) ∧
    ∀ event : Event, event.kind ≠ .approvalResolved → ∀ decisionId,
      (submit (event.withDecision decisionId) (inMemory.after operations)).1.isOk =
        (submit event (inMemory.after operations)).1.isOk := by
  constructor
  · intro runId asked closer decision hcloses hkind hdecision
    exact ((sound_after operations).2 runId).decision_of_closesIn hcloses hkind hdecision
  · intro event hkind decisionId
    refine isOk_submit_congr rfl rfl rfl ?_
    intro history
    have hnormal : event.normalized.kind ≠ .approvalResolved := hkind
    rw [Event.normalized_withDecision]
    exact Gate.violations_withDecision hnormal decisionId history

/-- The answer that closes the request about the letter is for the letter. -/
theorem letter_is_closed_by_its_answer :
    ∃ asked closer, ClosesIn
        ((inMemory.after [.submit letterDecided, .submit letterYes]).store.readOrder "run")
        asked closer ∧
      closer.event.decision? = some "letter" := by
  obtain ⟨asked, closer, hasked, hcloser, hcloses⟩ :=
    exists_closesIn_letter .approved (by decide +kernel : (submit letterYes _).1.isOk = true)
      (by decide +kernel) (by decide +kernel) (by decide +kernel)
  refine ⟨asked, closer, hcloses, ?_⟩
  apply (answer_is_for_its_decision [.submit letterDecided, .submit letterYes]).1 "run" asked closer
    "letter" hcloses
  · rw [hcloser]
    rfl
  · rw [hasked]
    decide +kernel

/-- The request about the letter is closed by the approval of the invoice. -/
theorem letter_is_closed_by_another_decision :
    ∃ asked closer, ClosesIn
        ((inMemory.after [.submit letterDecided, .submit invoiceYes]).store.readOrder "run")
        asked closer ∧
      closer.event.isAnswer = true ∧ closer.event.ending? = none ∧
      asked.event.decision? = some "letter" ∧ closer.event.decision? = some "invoice" := by
  obtain ⟨asked, closer, hasked, hcloser, hcloses⟩ :=
    exists_closesIn_letter .approved (by decide +kernel : (submit invoiceYes _).1.isOk = true)
      (by decide +kernel) (by decide +kernel) (by decide +kernel)
  refine ⟨asked, closer, hcloses, ?_⟩
  rw [hasked, hcloser]
  decide +kernel

/-- Whatever has been asked of a fresh ledger, in whatever order: an event on record that is of the
kind for answers closes a request that is open when it is read, and says who answered and when.  It
also says what the answer is, unless it marks the end of its run: then it is recorded or not
whatever it says. -/
theorem recorded_answer_closes_a_request (operations : List (Operation MemoryStore)) :
    (∀ runId, ∀ r ∈ (inMemory.after operations).store.readOrder runId,
      r.event.kind = .approvalResolved →
      (∃ asked, ClosesIn ((inMemory.after operations).store.readOrder runId) asked r) ∧
        Text.isBlankOption r.event.approval.resolvedBy = false ∧
        r.event.approval.resolvedAt.isSome = true ∧
        (r.event.ending? = none → r.event.approval.status.isResolved = true)) ∧
    ∀ event : Event, event.kind = .approvalResolved → event.ending?.isSome = true → ∀ status,
      (submit (event.withStatus status) (inMemory.after operations)).1.isOk =
        (submit event (inMemory.after operations)).1.isOk := by
  constructor
  · intro runId r hr hkind
    exact ((sound_after operations).2 runId).exists_asked hr hkind
  · intro event hkind hends status
    refine isOk_submit_congr rfl rfl rfl ?_
    intro history
    have hnormal : event.normalized.kind = .approvalResolved := hkind
    have hending : event.normalized.ending?.isSome = true := hends
    rw [Event.normalized_withStatus]
    exact Gate.violations_withStatus hnormal hending status history

/-- The answer to the request about the letter closes a request and says what the answer is. -/
theorem letter_yes_closes_a_request :
    ∃ r ∈ (inMemory.after [.submit letterDecided, .submit letterYes]).store.readOrder "run",
      (∃ asked, ClosesIn
        ((inMemory.after [.submit letterDecided, .submit letterYes]).store.readOrder "run")
        asked r) ∧ r.event.approval.status.isResolved = true := by
  obtain ⟨_, closer, -, hcloser, hcloses⟩ :=
    exists_closesIn_letter .approved (by decide +kernel : (submit letterYes _).1.isOk = true)
      (by decide +kernel) (by decide +kernel) (by decide +kernel)
  have hmem := hcloses.mem
  obtain ⟨hasked, -, -, hsays⟩ :=
    (recorded_answer_closes_a_request [.submit letterDecided, .submit letterYes]).1 "run" closer
      hmem (by rw [hcloser]; rfl)
  exact ⟨closer, hmem, hasked, hsays (by rw [hcloser]; rfl)⟩

/-- A stop of the kind for answers is on record that says that no approval is required. -/
theorem stop_is_recorded_as_an_answer :
    ∃ r ∈ (inMemory.after [.submit letterDecided, .submit letterStop]).store.readOrder "run",
      r.event.kind = .approvalResolved ∧ r.event.approval.status = .notRequired := by
  obtain ⟨_, closer, -, hcloser, hcloses⟩ :=
    exists_closesIn_letter .stopped (by decide +kernel : (submit letterStop _).1.isOk = true)
      (by decide +kernel) (by decide +kernel) (by decide +kernel)
  refine ⟨closer, hcloses.mem, ?_⟩
  rw [hcloser]
  decide +kernel

end Ledger

end RunLedger
