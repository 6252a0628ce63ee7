/-
  Proofs/Approval/Outcome.lean --- a recorded answer comes back.

  WHAT THIS FILE IS FOR.  An outcome comes back from answering a request exactly
  if the answer is on record: nothing that is refused before comes with one, and
  nothing that goes wrong afterwards takes it away.  Nothing here depends on the
  store.
-/
import RunLedger.Proofs.Ledger.Request

set_option autoImplicit false

namespace RunLedger

namespace Outcome

/-- The outcome that comes back from answering a request, if the answer was recorded. -/
def ofAnswer? : Except RequestError Outcome → Option Outcome
  | .ok outcome => some outcome
  | .error error => error.outcome?

/-- The outcome names the request `asked` and the answer `recorded` to it. -/
structure Names (outcome : Outcome) (asked recorded : Record) : Prop where
  target : outcome.targetEventId = asked.eventId
  answer : outcome.eventId = recorded.eventId
  run : outcome.runId = recorded.runId
  date : outcome.resolvedAt = recorded.timestamp

end Outcome

namespace Ledger

variable {σ α : Type}

/-- A store changes by any steps. -/
theorem changesBy_any (x : LedgerM σ α) : ChangesBy (fun _ _ => True) x :=
  fun _ => .single trivial

/-- A request that comes back with an outcome got past what is refused without one. -/
theorem Runs.exists_of_outcome {step : σ → σ → Prop} {x : LedgerM σ α} {f : α → LedgerM σ Outcome}
    {ledger : Ledger σ} {outcome : Outcome} (hx : Runs step RequestError.IsBare x)
    (h : Outcome.ofAnswer? ((x >>= f) ledger).1 = some outcome) :
    ∃ a next, x ledger = (.ok a, next) ∧ (x >>= f) ledger = f a next := by
  rcases hrun : x ledger with ⟨error | a, next⟩
  · rw [bind_apply, hrun] at h
    have hnone : error.outcome? = none := hx.refusals ledger error next hrun
    exact absurd (hnone.symm.trans h) (by simp)
  · refine ⟨a, next, rfl, ?_⟩
    rw [bind_apply, hrun]

variable [EventStore σ]

theorem stepsOf_any : StepsOf σ fun _ _ => True where
  readRun _ := changesBy_any _
  readAll := changesBy_any _
  submit _ := changesBy_any _

/-- Once an answer is on record, what follows is recorded as far as that is possible, a failure is
put on record, the status of the run is read, and all of it is handed back. -/
theorem exists_conclude_eq (strategies : Strategies σ) (around : Surroundings)
    (target recorded : Record) (before : RunStatus) (answer : Answer) (ledger : Ledger σ) :
    ∃ ids failure failed noted after next,
      continueAnswer strategies ⟨target, recorded⟩ answer ledger =
        (.ok (ids, failure), failed) ∧
      noteFailure around target failure failed = (.ok (), noted) ∧
      statusOr recorded.runId before noted = (.ok after, next) ∧
      conclude strategies around target recorded before answer ledger =
        handBack ⟨recorded.eventId, target.eventId, target.event.decision?, recorded.runId, answer,
          recorded.timestamp, before, after, ids⟩ failure next := by
  obtain ⟨⟨ids, failure⟩, failed, hfollow⟩ := (stepsOf_any.continueAnswer
    (fun _ _ _ _ _ => .single trivial) ⟨target, recorded⟩ answer).exists_answer ledger
  obtain ⟨_, noted, hnote⟩ := (stepsOf_any.noteFailure around target failure).exists_answer failed
  obtain ⟨after, next, hstatus⟩ := (stepsOf_any.statusOr recorded.runId before).exists_answer noted
  refine ⟨ids, failure, failed, noted, after, next, hfollow, hnote, hstatus, ?_⟩
  rw [conclude, bind_apply, hfollow]
  dsimp only
  rw [bind_apply, hnote]
  dsimp only
  rw [bind_apply, hstatus]

/-- Once an answer is on record its outcome comes back. -/
theorem conclude_outcome (strategies : Strategies σ) (around : Surroundings)
    (target recorded : Record) (before : RunStatus) (answer : Answer) (ledger : Ledger σ) :
    ∃ outcome, Outcome.ofAnswer?
        (conclude strategies around target recorded before answer ledger).1 = some outcome ∧
      outcome.Names target recorded := by
  obtain ⟨ids, failure, failed, noted, after, next, -, -, -, hconclude⟩ :=
    exists_conclude_eq strategies around target recorded before answer ledger
  rw [hconclude]
  cases failure with
  | none => exact ⟨_, rfl, rfl, rfl, rfl, rfl⟩
  | some cause => exact ⟨_, rfl, rfl, rfl, rfl, rfl⟩

variable {strategies : Strategies σ} {around : Surroundings} {target : ApprovalTarget}
  {resolution : Resolution} {ledger found submitted : Ledger σ} {eventId : String}
  {request recorded : Record} {before : RunStatus}

/-- An answer is recorded for the open request, as an event that comes after its run. -/
theorem exists_of_recordAnswer
    (h : recordAnswer around eventId resolution found =
      (.ok (request, recorded, before), submitted)) :
    ∃ history opened, openRequest eventId found = (.ok (request, history, before), opened) ∧
      submit (resolution.toEvent request
          (timeAfter history (around.now (opened.drawn + 1))) (around.token (opened.drawn + 1)))
        { opened with drawn := opened.drawn + 1 } = (.ok recorded, submitted) := by
  obtain ⟨⟨target, history, status⟩, opened, hopen, hrest⟩ := bind_eq_ok_iff.mp h
  obtain ⟨_, _, hclock, hrest⟩ := bind_eq_ok_iff.mp hrest
  cases hclock
  obtain ⟨_, _, htoken, hrest⟩ := bind_eq_ok_iff.mp hrest
  cases htoken
  obtain ⟨stored, final, hsubmit, hreturn⟩ := bind_eq_ok_iff.mp hrest
  cases hreturn
  exact ⟨history, opened, hopen, hsubmit⟩

theorem resolve_of_recorded (hfound : targetEvent target ledger = (.ok eventId, found))
    (hrecorded : recordAnswer around eventId resolution found =
      (.ok (request, recorded, before), submitted)) :
    resolve strategies around target resolution ledger =
      conclude strategies around request recorded before resolution.answer submitted := by
  rw [resolve, bind_apply, hfound]
  dsimp only
  rw [bind_apply, hrecorded]

/-- An answer is refused when its request is not open. -/
theorem resolve_of_refused {error : RequestError}
    (hfound : targetEvent target ledger = (.ok eventId, found))
    (hrefused : openRequest eventId found = (.error error, submitted)) :
    resolve strategies around target resolution ledger = (.error error, submitted) := by
  rw [resolve, bind_apply, hfound]
  dsimp only
  rw [bind_apply, recordAnswer, bind_apply, hrefused]

/-- When the answer is on record, an outcome comes back. -/
theorem exists_outcome_of_recorded (hfound : targetEvent target ledger = (.ok eventId, found))
    (hrecorded : recordAnswer around eventId resolution found =
      (.ok (request, recorded, before), submitted)) :
    ∃ outcome, Outcome.ofAnswer? (resolve strategies around target resolution ledger).1 =
        some outcome ∧
      outcome.Names request recorded := by
  rw [resolve_of_recorded hfound hrecorded]
  exact conclude_outcome strategies around request recorded before resolution.answer submitted

/-- When an outcome comes back, the answer is on record. -/
theorem exists_recorded_of_outcome {outcome : Outcome}
    (h : Outcome.ofAnswer? (resolve strategies around target resolution ledger).1 =
      some outcome) :
    ∃ eventId found request recorded before submitted,
      targetEvent target ledger = (.ok eventId, found) ∧
      recordAnswer around eventId resolution found =
        (.ok (request, recorded, before), submitted) ∧
      outcome.Names request recorded := by
  obtain ⟨eventId, found, hfound, hrest⟩ := (stepsOf_any.targetEvent target).exists_of_outcome h
  have h' := h
  rw [resolve, hrest] at h'
  obtain ⟨⟨request, recorded, before⟩, submitted, hrecorded, -⟩ :=
    (stepsOf_any.recordAnswer around eventId resolution).exists_of_outcome h'
  obtain ⟨outcome', houtcome, hnames⟩ : ∃ outcome', Outcome.ofAnswer?
      (resolve strategies around target resolution ledger).1 = some outcome' ∧ _ :=
    exists_outcome_of_recorded hfound hrecorded
  obtain rfl : outcome' = outcome := Option.some.inj (houtcome.symm.trans h)
  exact ⟨eventId, found, request, recorded, before, submitted, hfound, hrecorded, hnames⟩

end Ledger

end RunLedger
