/-
  Proofs/Approval/NeverLost.lean --- a recorded answer is never lost to the caller.

  WHAT THIS FILE IS FOR.  A store may fail at any call, before an answer is
  recorded, while it is, or at any time afterwards.  Who answers a request learns
  from what comes back whether the answer is on record: it is exactly if an outcome
  comes back, and then the outcome names it.  Without an outcome nothing has been
  recorded, so that the caller may try again.
-/
import RunLedger.Proofs.Ledger.Answerable
import RunLedger.Proofs.Ledger.Mirror

set_option autoImplicit false

namespace RunLedger

open RunLedger.Text (trim)

theorem MemoryStore.quiet : Quiet MemoryStore where
  readRun _ _ := rfl
  readAll _ := rfl
  append _ _ _ _ h := MemoryStore.append_error h

/-! ## The request that is meant -/

/-- The record is the request that an answer is meant for: the one with the identifier, or the one
that belongs to the policy decision. -/
def ApprovalTarget.Means (target : ApprovalTarget) (store : MemoryStore) (asked : Record) : Prop :=
  match target with
  | .event id => asked.eventId = trim id
  | .decision id => ∀ r,
    (r ∈ store.records ∧ r.event.isRequest = true ∧ r.carries (trim id) = true) ↔ r = asked

namespace Ledger

variable {ledger next : Ledger MemoryStore} {target : ApprovalTarget} {eventId : String}

theorem recordsOfDecision_apply (decisionId : String) (ledger : Ledger MemoryStore) :
    recordsOfDecision decisionId ledger =
      (.ok ((Record.sortForReading ledger.store.records).filter fun r => r.carries decisionId),
        ledger) := rfl

/-- What is found for a policy decision is the one request that belongs to it. -/
theorem requestOfDecision_eq_ok {decisionId : String}
    (h : requestOfDecision decisionId ledger = (.ok eventId, next)) :
    next = ledger ∧ ∃ asked, asked.eventId = eventId ∧ ∀ r,
      (r ∈ ledger.store.records ∧ r.event.isRequest = true ∧ r.carries decisionId = true) ↔
        r = asked := by
  rw [requestOfDecision, bind_apply, recordsOfDecision_apply] at h
  dsimp only at h
  generalize hcarriers : (Record.sortForReading ledger.store.records).filter
    (fun r => r.carries decisionId) = carriers at h
  cases hnone : carriers.isEmpty with
  | true =>
    rw [hnone] at h
    cases (Prod.mk.inj h).1
  | false =>
    rw [hnone, if_neg (by decide)] at h
    match hfound : carriers.filter fun r => r.event.isRequest with
    | [] =>
      rw [hfound] at h
      cases (Prod.mk.inj h).1
    | asked :: other :: rest =>
      rw [hfound] at h
      cases (Prod.mk.inj h).1
    | [asked] =>
      rw [hfound] at h
      cases h
      refine ⟨rfl, asked, rfl, ?_⟩
      intro r
      have hmem : r ∈ [asked] ↔ (r ∈ ledger.store.records ∧ r.carries decisionId = true) ∧
          r.event.isRequest = true := by
        rw [← hfound, ← hcarriers, List.mem_filter, List.mem_filter, Record.mem_sortForReading]
      rw [List.mem_singleton] at hmem
      tauto

/-- What is found for a target is the request that it means, if the identifier that is found is in
use once. -/
theorem means_of_targetEvent (h : targetEvent target ledger = (.ok eventId, next)) :
    next = ledger ∧
      ∀ asked, ledger.store.withId eventId = [asked] → target.Means ledger.store asked := by
  have hwith (asked : Record) (hasked : ledger.store.withId eventId = [asked]) (r : Record) :
      r = asked ↔ r ∈ ledger.store.records ∧ r.eventId = eventId := by
    have hmem : r ∈ ledger.store.withId eventId ↔
        r ∈ ledger.store.records ∧ r.eventId = eventId := by
      rw [MemoryStore.withId, List.mem_filter, Record.mem_sortForReading, beq_iff_eq]
    rw [← hmem, hasked, List.mem_singleton]
  cases target with
  | event id =>
    cases h
    exact ⟨rfl, fun asked hasked => ((hwith asked hasked asked).mp rfl).2⟩
  | decision id =>
    obtain ⟨rfl, found, hid, hfound⟩ := requestOfDecision_eq_ok h
    refine ⟨rfl, ?_⟩
    intro asked hasked
    obtain rfl : found = asked :=
      (hwith asked hasked found).mpr ⟨((hfound found).mpr rfl).1, hid⟩
    exact hfound

end Ledger

/-! ## The answer on record -/

namespace MemoryStore

/-- Whatever is accepted afterwards, a request that has been closed is closed by nothing else. -/
theorem Closes.only {s answered t : MemoryStore} {runId : String} {request : OpenRequest}
    {recorded : Record} (h : s.Closes runId request recorded answered) (hs : s.Sound)
    (hchain : Relation.ReflTransGen (fun s t => ∃ r, s.Accepts r t) answered t) {id : String}
    (hid : (request.eventId, id) ∈ RunState.cleared (t.readOrder runId)) :
    id = recorded.eventId := by
  have hanswered := hs.accepts h.accepted
  have hgrows := cleared_prefix_of_chain runId
    (hanswered.chain cleared_prefix_of_accepts hchain)
  have hmem : (request.eventId, recorded.eventId) ∈ RunState.cleared (t.readOrder runId) := by
    apply hgrows.subset
    rw [h.closed]
    simp
  have hgated := (hanswered.of_chain hchain).2 runId
  obtain ⟨state, hstate⟩ := hgated.exists_state
  have hnodup := (List.nodup_append.mp (RunState.nodup_closed hstate hgated.distinct)).1
  exact congrArg Prod.snd (List.inj_on_of_nodup_map hnodup hid hmem rfl)

/-- Of all records with which the store `s` becomes `t`, the first is `recorded`: the one answer to
`asked`, for which the run waited. -/
structure AnswersFirst (s : MemoryStore) (asked recorded : Record) (t : MemoryStore) : Prop where
  kind : recorded.event.kind = .approvalResolved
  first : ∃ request answered, s.WaitsFor asked.runId request asked ∧
    s.Closes asked.runId request recorded answered ∧
    Relation.ReflTransGen (fun s t => ∃ r, s.Accepts r t) answered t
  only : ∀ id, (asked.eventId, id) ∈ RunState.cleared (t.readOrder asked.runId) →
    id = recorded.eventId

end MemoryStore

namespace Ledger

variable {ledger next : Ledger MemoryStore} {eventId : String}

/-- An answer that is recorded is the first record, whatever is accepted afterwards. -/
theorem answersFirst_of_recordAnswer {around : Surroundings} {resolution : Resolution}
    {asked recorded : Record} {before : RunStatus} {t : MemoryStore} (hs : ledger.store.Sound)
    (h : recordAnswer around eventId resolution ledger = (.ok (asked, recorded, before), next))
    (hchain : Relation.ReflTransGen (fun s t => ∃ r, s.Accepts r t) next.store t) :
    ledger.store.withId eventId = [asked] ∧
      recorded.event = ledger.answerTo around resolution asked ∧
      ledger.store.AnswersFirst asked recorded t := by
  obtain ⟨hfound, -, ⟨request, hwaits⟩, hevent, haccepts, -⟩ := waitsFor_of_recordAnswer hs h
  have hcloses := closes_of_accepts hs hwaits hevent haccepts
  refine ⟨hfound, hevent, ?_, ⟨request, next.store, hwaits, hcloses, hchain⟩, ?_⟩
  · rw [hevent]
    rfl
  · intro id hid
    rw [hwaits.named] at hid
    exact hcloses.only hs hchain hid

/-- When an outcome comes back, the answer to the request that it names is on record, and what
follows is concluded from the two. -/
theorem exists_recordAnswer_of_outcome {strategies : Strategies MemoryStore}
    {around : Surroundings} {target : ApprovalTarget} {resolution : Resolution}
    {outcome : Outcome} (hs : ledger.store.Sound)
    (h : Outcome.ofAnswer? (resolve strategies around target resolution ledger).1 =
      some outcome) :
    ∃ asked recorded submitted, outcome.Names asked recorded ∧
      recordAnswer around asked.eventId resolution ledger =
        (.ok (asked, recorded, .paused), submitted) ∧
      resolve strategies around target resolution ledger =
        conclude strategies around asked recorded .paused resolution.answer submitted := by
  obtain ⟨eventId, found, asked, recorded, before, submitted, hfound, hrecorded, hnames⟩ :=
    exists_recorded_of_outcome h
  obtain ⟨hsame, -⟩ := means_of_targetEvent hfound
  rw [hsame] at hfound hrecorded
  obtain ⟨hwith, rfl, -⟩ := waitsFor_of_recordAnswer hs hrecorded
  obtain rfl : asked.eventId = eventId := by
    obtain ⟨⟨log, hlog⟩, -⟩ := hs
    exact (hlog.mem_withId.mp (hwith ▸ List.mem_singleton_self asked)).2
  exact ⟨asked, recorded, submitted, hnames, hrecorded, resolve_of_recorded hfound hrecorded⟩

/-! ## Answering on a store that may fail -/

/-- Whatever has been asked of a fresh ledger on a store of which any call may fail, the store that
is kept holds only what has been accepted. -/
theorem sound_kept_after {σ : Type} [EventStore σ] {kept : σ → MemoryStore}
    (hfalters : Falters σ MemoryStore kept) {start : σ} (hstart : kept start = .empty)
    (operations : List (Operation σ)) :
    (kept ((on start).after operations).store).Sound := by
  have hsteps := stepsOf_kept hfalters MemoryStore.quiet stepsOf_accepts
  have hempty : (kept (on start).store).Sound := hstart ▸ MemoryStore.sound_empty
  exact hempty.of_chain (chain_of_chain_kept (reflTransGen_after hsteps (on start) operations))

/-- What follows a recorded answer, on a store of which any call may fail, is that the store that is
kept accepts records. -/
theorem accepts_of_recorded {σ : Type} [EventStore σ] {kept : σ → MemoryStore}
    (hfalters : Falters σ MemoryStore kept) {strategies : Strategies σ}
    (hstrategies : strategies.ChangeBy fun s t => kept t = kept s) {around : Surroundings}
    {target : ApprovalTarget} {resolution : Resolution} {eventId : String}
    {ledger found submitted : Ledger σ} {asked recorded : Record} {before : RunStatus}
    (hfound : targetEvent target ledger = (.ok eventId, found))
    (hrecorded : recordAnswer around eventId resolution found =
      (.ok (asked, recorded, before), submitted)) :
    Relation.ReflTransGen (fun s t => ∃ r, s.Accepts r t) (kept submitted.store)
      (kept (resolve strategies around target resolution ledger).2.store) := by
  have hsteps := stepsOf_kept hfalters MemoryStore.quiet stepsOf_accepts
  have hchange : strategies.ChangeBy fun s t =>
      Relation.ReflTransGen (fun s t => ∃ r, s.Accepts r t) (kept s) (kept t) := by
    intro workflow strategy hstrategy context store
    apply Relation.ReflTransGen.single
    rw [kept_eq_of_chain (hstrategies workflow strategy hstrategy context store)]
  have hafter := (hsteps.conclude hchange around asked recorded before
    resolution.answer).changes submitted
  rw [← resolve_of_recorded hfound hrecorded] at hafter
  exact chain_of_chain_kept hafter

/-- Whatever has been asked of a fresh ledger on a store of which any call may fail, in whatever
order, and whoever answers a request then, with strategies that leave alone what the store keeps:

* if an error comes back without an outcome, nothing has been recorded;
* if an outcome comes back, by itself or with an error, then the first record is the answer to the
  request that was meant, and the outcome names both. -/
theorem recorded_answer_reaches_the_caller {σ : Type} [EventStore σ] {kept : σ → MemoryStore}
    (hfalters : Falters σ MemoryStore kept) {start : σ} (hstart : kept start = .empty)
    (operations : List (Operation σ)) (strategies : Strategies σ)
    (hstrategies : strategies.ChangeBy fun s t => kept t = kept s) (around : Surroundings)
    (target : ApprovalTarget) (resolution : Resolution) :
    (∀ error next, resolve strategies around target resolution ((on start).after operations) =
        (.error error, next) → error.IsBare →
      kept next.store = kept ((on start).after operations).store) ∧
    ∀ answer next outcome,
      resolve strategies around target resolution ((on start).after operations) =
        (answer, next) → Outcome.ofAnswer? answer = some outcome →
      ∃ asked recorded, target.Means (kept ((on start).after operations).store) asked ∧
        recorded.event =
          (((on start).after operations).map kept).answerTo around resolution asked ∧
        (kept ((on start).after operations).store).AnswersFirst asked recorded
          (kept next.store) ∧
        outcome.Names asked recorded := by
  have hs := sound_kept_after hfalters hstart operations
  generalize (on start).after operations = ledger at hs
  constructor
  · intro error next hrefused hbare
    exact kept_eq_of_chain ((quietOf_kept hfalters MemoryStore.quiet).resolve strategies around
      target resolution ledger error next hrefused hbare)
  · intro answer next outcome hrun houtcome
    have hcomes : Outcome.ofAnswer? (resolve strategies around target resolution ledger).1 =
        some outcome := by rw [hrun, houtcome]
    obtain ⟨eventId, found, asked, recorded, before, submitted, hfound, hrecorded, hnames⟩ :=
      exists_recorded_of_outcome hcomes
    have hchain := accepts_of_recorded hfalters hstrategies hfound hrecorded
    rw [hrun] at hchain
    -- The request is found and answered on the store that is kept as well.
    obtain ⟨hsame, hmeans⟩ :=
      means_of_targetEvent (mirrors_targetEvent hfalters target ledger eventId found hfound)
    have hanswer := mirrors_recordAnswer hfalters around eventId resolution found _ submitted
      hrecorded
    rw [hsame] at hanswer
    obtain ⟨hasked, hevent, hfirst⟩ := answersFirst_of_recordAnswer hs hanswer hchain
    exact ⟨asked, recorded, hmeans asked hasked, hevent, hfirst, hnames⟩

/-- A request of a workflow that goes on after an approval. -/
def triageRequest : Event :=
  { letterRequest with origin := some ⟨Triage.workflow, "approval_requested"⟩ }

/-- A store that answers six calls, which is what it takes to record a request and an answer to it,
and none after that. -/
def sixCalls : Unsteady MemoryStore :=
  ⟨.empty, 0, fun n => if n < 6 then none else some (.corruptRecord 0 .unreachable)⟩

/-- The store fails from the moment when the answer is recorded.  What should follow cannot be, and
still the outcome comes back, with an error, and names the answer. -/
theorem answer_comes_back_from_six_calls :
    ∃ error next outcome asked recorded,
      resolve .standard stillSurroundings (.event "ask") ⟨.approved, "alice", none⟩
        ((on sixCalls).after [.submit triageRequest]) = (.error error, next) ∧
      error.outcome? = some outcome ∧
      ((on sixCalls).after [.submit triageRequest]).store.store.AnswersFirst asked recorded
        next.store.store ∧
      outcome.Names asked recorded := by
  rcases hrun : resolve .standard stillSurroundings (.event "ask") ⟨.approved, "alice", none⟩
    ((on sixCalls).after [.submit triageRequest]) with ⟨error | outcome, next⟩
  · have hcomes : (Outcome.ofAnswer? (resolve .standard stillSurroundings (.event "ask")
        ⟨.approved, "alice", none⟩
        ((on sixCalls).after [.submit triageRequest])).1).isSome = true := by decide +kernel
    rw [hrun] at hcomes
    obtain ⟨outcome, houtcome⟩ := Option.isSome_iff_exists.mp hcomes
    have hfalters : Falters (Unsteady MemoryStore) MemoryStore Unsteady.store := Unsteady.falters
    have hempty : sixCalls.store = .empty := rfl
    obtain ⟨asked, recorded, -, -, hfirst, hnames⟩ :=
      (recorded_answer_reaches_the_caller hfalters hempty [.submit triageRequest] .standard
        (Strategies.onlyDescribe_standard.changeBy _) stillSurroundings (.event "ask")
        ⟨.approved, "alice", none⟩).2 (.error error) next outcome hrun houtcome
    exact ⟨error, next, outcome, asked, recorded, rfl, houtcome, hfirst, hnames⟩
  · have hfails : (resolve .standard stillSurroundings (.event "ask") ⟨.approved, "alice", none⟩
        ((on sixCalls).after [.submit triageRequest])).1.isOk = false := by decide +kernel
    rw [hrun] at hfails
    cases hfails

end Ledger

end RunLedger
