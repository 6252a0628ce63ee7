/-
  Proofs/Approval/ByDecision.lean --- answering a request by its policy decision.

  WHAT THIS FILE IS FOR.  Who answers a request may name the policy decision that it
  belongs to instead of its event.  The open request is meant, but the lookup counts
  every request on record that belongs to the decision, answered ones included, and
  what it finds is an identifier, which is then looked up in all runs.  Here it is
  shown when the open request is answered: exactly if it is the only request that the
  decision ever had, and its identifier is good for answering it.
-/
import RunLedger.Proofs.Approval.NeverLost
import RunLedger.Proofs.Approval.WaitingList
import RunLedger.Proofs.Store.Appended

set_option autoImplicit false

namespace RunLedger

open RunLedger.Text (trim isBlankText)

namespace MemoryStore

variable {store : MemoryStore} {log : List Record} {runId decisionId : String}
  {request : OpenRequest} {target : Record}

/-! ## The records of a policy decision -/

/-- The records of all runs that belong to a policy decision, in read order. -/
def carriersOf (store : MemoryStore) (decisionId : String) : List Record :=
  (Record.sortForReading store.records).filter fun r => r.carries decisionId

theorem mem_carriersOf {r : Record} :
    r ∈ store.carriersOf decisionId ↔ r ∈ store.records ∧ r.carries decisionId = true := by
  rw [carriersOf, List.mem_filter, Record.mem_sortForReading]

theorem Holds.carriersOf_ordered (h : store.Holds log) (decisionId : String) :
    (store.carriersOf decisionId).Pairwise Record.IsReadBefore := by
  have hplaces : (store.records.map Record.sequence).Nodup :=
    (h.all.map Record.sequence).nodup_iff.mpr h.places_nodup
  exact (Record.sortForReading_isReadBefore hplaces).filter _

/-! ## The requests of a policy decision -/

/-- The requests of all runs that belong to a policy decision, in read order. -/
def requestsOf (store : MemoryStore) (decisionId : String) : List Record :=
  ((Record.sortForReading store.records).filter fun r => r.carries decisionId).filter
    fun r => r.event.isRequest

/-- The policy decision has another request than `target`, open or not. -/
def AskedApart (store : MemoryStore) (decisionId : String) (target : Record) : Prop :=
  ∃ other ∈ store.requestsOf decisionId, other ≠ target

theorem Holds.mem_requestsOf (h : store.Holds log) {r : Record} :
    r ∈ store.requestsOf decisionId ↔
      r ∈ log ∧ r.carries decisionId = true ∧ r.event.isRequest = true := by
  rw [requestsOf, List.mem_filter, List.mem_filter, Record.mem_sortForReading, h.mem_records,
    and_assoc]

theorem Holds.nodup_requestsOf (h : store.Holds log) (decisionId : String) :
    (store.requestsOf decisionId).Nodup := by
  refine (List.Nodup.filter _ ?_).filter _
  rw [((Record.sortForReading_perm _).trans h.all).nodup_iff]
  exact h.places_nodup.of_map _

/-- A request of a policy decision is the only one, or there are several. -/
theorem Holds.requestsOf_cases (h : store.Holds log) (hmem : target ∈ store.requestsOf decisionId) :
    (store.requestsOf decisionId = [target] ∧ ¬ store.AskedApart decisionId target) ∨
      ∃ x y rest, store.requestsOf decisionId = x :: y :: rest ∧
        store.AskedApart decisionId target := by
  have hnodup := h.nodup_requestsOf decisionId
  unfold AskedApart
  generalize store.requestsOf decisionId = found at *
  match found with
  | [] => cases hmem
  | [x] =>
    obtain rfl := List.mem_singleton.mp hmem
    exact .inl ⟨rfl, by simp⟩
  | x :: y :: rest =>
    refine .inr ⟨x, y, rest, rfl, ?_⟩
    have hdiffer : x ≠ y := fun heq => (List.nodup_cons.mp hnodup).1 (heq ▸ List.mem_cons_self)
    by_cases hx : x = target
    · exact ⟨y, by simp, fun hy => hdiffer (hx.trans hy.symm)⟩
    · exact ⟨x, by simp, hx⟩

/-! ## Waiting for an answer to a policy decision -/

/-- The run waits for an answer to the request, which `target` has put on record for the policy
decision. -/
structure WaitsForDecision (store : MemoryStore) (runId decisionId : String)
    (request : OpenRequest) (target : Record) : Prop
    extends store.WaitsOn runId request target where
  carries : target.carries decisionId = true

theorem WaitsForDecision.mem_requestsOf
    (h : store.WaitsForDecision runId decisionId request target) (hs : store.Sound) :
    target ∈ store.requestsOf decisionId := by
  have hasks := h.toWaitsOn.asks hs
  obtain ⟨⟨log, hlog⟩, -⟩ := hs
  exact hlog.mem_requestsOf.mpr ⟨(hlog.mem_readOrder.mp h.mem).1, h.carries, hasks⟩

end MemoryStore

namespace Ledger

variable {ledger : Ledger MemoryStore} {runId decisionId : String} {request : OpenRequest}
  {target : Record}

/-! ## Looking a policy decision up -/

/-- When a policy decision has requests, exactly one is needed to be found. -/
theorem requestOfDecision_of_mem (hmem : target ∈ ledger.store.requestsOf decisionId) :
    requestOfDecision decisionId ledger =
      match ledger.store.requestsOf decisionId with
      | [] => (.error (.notPending decisionId), ledger)
      | [r] => (.ok r.eventId, ledger)
      | _ => (.error (.ambiguousEvent decisionId), ledger) := by
  have hcarriers : ((Record.sortForReading ledger.store.records).filter
      fun r => r.carries decisionId).isEmpty = false :=
    List.isEmpty_eq_false_iff_exists_mem.mpr ⟨target, (List.mem_filter.mp hmem).1⟩
  rw [requestOfDecision, bind_apply, recordsOfDecision_apply]
  dsimp only
  rw [hcarriers, if_neg (by decide)]
  unfold MemoryStore.requestsOf
  generalize List.filter _ (List.filter _ _) = found
  rcases found with _ | ⟨x, _ | ⟨y, rest⟩⟩ <;> rfl

theorem requestOfDecision_of_askedApart (hs : ledger.store.Sound)
    (hwaits : ledger.store.WaitsForDecision runId decisionId request target)
    (hothers : ledger.store.AskedApart decisionId target) :
    requestOfDecision decisionId ledger = (.error (.ambiguousEvent decisionId), ledger) := by
  have hmem := hwaits.mem_requestsOf hs
  obtain ⟨⟨log, hlog⟩, -⟩ := hs
  rw [requestOfDecision_of_mem hmem]
  rcases hlog.requestsOf_cases hmem with ⟨-, hnone⟩ | ⟨x, y, rest, hfound, -⟩
  · exact absurd hothers hnone
  · rw [hfound]

theorem requestOfDecision_of_alone (hs : ledger.store.Sound)
    (hwaits : ledger.store.WaitsForDecision runId decisionId request target)
    (halone : ¬ ledger.store.AskedApart decisionId target) :
    requestOfDecision decisionId ledger = (.ok request.eventId, ledger) := by
  have hmem := hwaits.mem_requestsOf hs
  obtain ⟨⟨log, hlog⟩, -⟩ := hs
  rw [requestOfDecision_of_mem hmem, ← hwaits.named]
  rcases hlog.requestsOf_cases hmem with ⟨hfound, -⟩ | ⟨_, _, _, -, hothers⟩
  · rw [hfound]
  · exact absurd hothers halone

/-- An identifier that several runs use opens nothing. -/
theorem openRequest_of_usedElsewhere (hs : ledger.store.Sound)
    (hmem : target ∈ ledger.store.readOrder runId)
    (hused : ledger.store.UsedElsewhere runId target.eventId) :
    openRequest target.eventId ledger = (.error (.ambiguousEvent target.eventId), ledger) := by
  obtain ⟨⟨log, hlog⟩, -⟩ := hs
  rcases hlog.withId_cases hmem with ⟨-, hunique⟩ | ⟨x, y, rest, hfound, -⟩
  · exact absurd hused hunique
  · rw [openRequest, bind_apply, recordOfEvent_apply, hfound]

/-! ## Answering what a run waits for -/

/-- Whatever has been asked of a fresh ledger, in whatever order: who answers a request that a run
waits for by its policy decision

* is told that the decision is ambiguous, if it has had another request, and changes nothing;
* otherwise is told that the identifier of the request is ambiguous, if another run uses it, and
  changes nothing;
* otherwise is told that the request has been answered, if an answer in the run has an identifier
  that begins like those of the answers to the request, and changes nothing;
* otherwise, if the approver has a name and the identifier of the answer is new in the run, has
  the answer recorded, which closes this request and nothing else, and gets the outcome back. -/
theorem open_decision_is_answered (operations : List (Operation MemoryStore))
    (runId decisionId : String) (request : OpenRequest) (target : Record)
    (hwaits : (inMemory.after operations).store.WaitsForDecision runId decisionId request target)
    (strategies : Strategies MemoryStore) (hdescribe : strategies.OnlyDescribe)
    (around : Surroundings) (id : String) (hid : trim id = decisionId) (resolution : Resolution) :
    ((inMemory.after operations).store.AskedApart decisionId target →
      resolve strategies around (.decision id) resolution (inMemory.after operations) =
        (.error (.ambiguousEvent decisionId), inMemory.after operations)) ∧
    (¬ (inMemory.after operations).store.AskedApart decisionId target →
      (inMemory.after operations).store.UsedElsewhere runId request.eventId →
      resolve strategies around (.decision id) resolution (inMemory.after operations) =
        (.error (.ambiguousEvent request.eventId), inMemory.after operations)) ∧
    (¬ (inMemory.after operations).store.AskedApart decisionId target →
      ¬ (inMemory.after operations).store.UsedElsewhere runId request.eventId →
      HoldsNamedAnswer request.eventId ((inMemory.after operations).store.readOrder runId) →
      resolve strategies around (.decision id) resolution (inMemory.after operations) =
        (.error (.duplicateApproval request.eventId .resolved), inMemory.after operations)) ∧
    (¬ (inMemory.after operations).store.AskedApart decisionId target →
      ¬ (inMemory.after operations).store.UsedElsewhere runId request.eventId →
      ¬ HoldsNamedAnswer request.eventId ((inMemory.after operations).store.readOrder runId) →
      isBlankText resolution.approverId = false →
      (∀ r ∈ (inMemory.after operations).store.readOrder runId,
        r.eventId ≠ ((inMemory.after operations).answerTo around resolution target).id) →
      ∃ recorded answered outcome,
        recorded.event = (inMemory.after operations).answerTo around resolution target ∧
        (inMemory.after operations).store.Closes runId request recorded answered ∧
        Outcome.ofAnswer? (resolve strategies around (.decision id) resolution
          (inMemory.after operations)).1 = some outcome ∧
        outcome.Names target recorded ∧
        Relation.ReflTransGen (fun s t => ∃ r, s.Accepts r t) answered
          (resolve strategies around (.decision id) resolution
            (inMemory.after operations)).2.store) := by
  have hs := sound_after operations
  have hfaultless := faultless_after operations
  generalize inMemory.after operations = ledger at *
  have htarget : targetEvent (.decision id) ledger = requestOfDecision decisionId ledger := by
    rw [← hid]
    rfl
  have hfound (halone : ¬ ledger.store.AskedApart decisionId target) :
      targetEvent (.decision id) ledger = (.ok request.eventId, ledger) :=
    htarget.trans (requestOfDecision_of_alone hs hwaits halone)
  refine ⟨fun hothers => ?_, fun halone hused => ?_, fun halone hunique hnamed => ?_,
    fun halone hunique hnone happrover hfresh => ?_⟩
  · rw [resolve, bind_apply, htarget, requestOfDecision_of_askedApart hs hwaits hothers]
  · have hopen : openRequest target.eventId ledger = _ :=
      openRequest_of_usedElsewhere hs hwaits.mem (hwaits.named ▸ hused)
    rw [hwaits.named] at hopen
    exact resolve_of_refused (hfound halone) hopen
  · have hanswered := (isAnswered_eq_true_iff hwaits.paused (hs.2 runId).distinct).mpr hnamed
    have hopen := openRequest_of_waitsFor hs (hwaits.toWaitsOn.waitsFor hs hunique)
    rw [if_pos hanswered] at hopen
    exact resolve_of_refused (hfound halone) hopen
  · obtain ⟨recorded, submitted, hevent, hcloses, hrecorded⟩ :=
      exists_recordAnswer hs hfaultless (hwaits.toWaitsOn.waitsFor hs hunique) hnone happrover hfresh
    obtain ⟨outcome, houtcome, hnames⟩ : ∃ outcome, Outcome.ofAnswer?
        (resolve strategies around (.decision id) resolution ledger).1 = some outcome ∧ _ :=
      exists_outcome_of_recorded (hfound halone) hrecorded
    refine ⟨recorded, submitted.store, outcome, hevent, hcloses, houtcome, hnames, ?_⟩
    rw [resolve_of_recorded (hfound halone) hrecorded]
    exact (stepsOf_accepts.conclude (hdescribe.changeBy _) around target recorded .paused
      resolution.answer).changes submitted

/-- A request for the policy decision on a letter, some milliseconds after the start. -/
def policyRequest (id : String) (millis : Int) : Event :=
  { letterRequestNamed id millis with
    approval := { Approval.pending "agent" with decisionId := some "policy" } }

/-- The one request of a policy decision is answered by the decision. -/
theorem policy_is_answered_by_its_decision :
    ∃ outcome, Outcome.ofAnswer? (resolve .standard stillSurroundings (.decision " policy ")
        ⟨.approved, "alice", none⟩
        (inMemory.after [.submit (policyRequest "ask" 5)])).1 = some outcome ∧
      outcome.targetEventId = "ask" := by
  have hs := sound_after [.submit (policyRequest "ask" 5)]
  obtain ⟨target, hmem, hnamed, hcarries⟩ : ∃ target ∈
      (inMemory.after [.submit (policyRequest "ask" 5)]).store.readOrder "run",
      target.eventId = "ask" ∧ target.carries "policy" = true := by decide +kernel
  have hwaits : (inMemory.after [.submit (policyRequest "ask" 5)]).store.WaitsForDecision "run"
      "policy" (policyRequest "ask" 5).toOpenRequest target :=
    ⟨⟨by decide +kernel, hmem, hnamed⟩, hcarries⟩
  have halone : ¬ (inMemory.after [.submit (policyRequest "ask" 5)]).store.AskedApart "policy"
      target := by
    have hone : ∀ r ∈ (inMemory.after [.submit (policyRequest "ask" 5)]).store.requestsOf "policy",
        r.runId = "run" ∧ r.eventId = "ask" := by decide +kernel
    rintro ⟨other, hother, hdiffer⟩
    obtain ⟨⟨log, hlog⟩, -⟩ := hs
    obtain ⟨hlogged, hrun⟩ := hlog.mem_readOrder.mp hmem
    obtain ⟨hotherRun, hotherNamed⟩ := hone other hother
    exact hdiffer (hlog.eq_of_eventId (hlog.mem_requestsOf.mp hother).1 hlogged
      (hotherRun.trans hrun.symm) (hotherNamed.trans hnamed.symm))
  have hunique : ¬ (inMemory.after [.submit (policyRequest "ask" 5)]).store.UsedElsewhere "run"
      "ask" := by
    obtain ⟨⟨log, hlog⟩, -⟩ := hs
    rw [hlog.usedElsewhere_iff]
    decide +kernel
  have hfresh : ∀ x ∈ (inMemory.after [.submit (policyRequest "ask" 5)]).store.readOrder "run",
      ∀ r ∈ (inMemory.after [.submit (policyRequest "ask" 5)]).store.readOrder "run",
        r.eventId ≠ ((inMemory.after [.submit (policyRequest "ask" 5)]).answerTo
          stillSurroundings ⟨.approved, "alice", none⟩ x).id := by
    decide +kernel
  obtain ⟨_, _, outcome, -, -, houtcome, hnames, -⟩ :=
    (open_decision_is_answered [.submit (policyRequest "ask" 5)] "run" "policy" _ target hwaits
      .standard Strategies.onlyDescribe_standard stillSurroundings " policy " (by decide +kernel)
      ⟨.approved, "alice", none⟩).2.2.2 halone hunique (by decide +kernel) (by decide +kernel)
      (hfresh target hmem)
  exact ⟨outcome, houtcome, hnames.target.trans hnamed⟩

/-! ### A policy decision that is asked about again -/

/-- The answer to a request for the policy decision on a letter. -/
def policyAnswer : Event :=
  { letterAnswer with approval := { letterAnswer.approval with decisionId := some "policy" } }

/-- A request for the policy decision, the answer to it, and then a second request. -/
def policyTwice : List (Operation MemoryStore) :=
  [.submit (policyRequest "ask" 5), .submit policyAnswer, .submit (policyRequest "again" 20)]

/-- The store that holds the three. -/
def policyTwiceStore : MemoryStore :=
  (((MemoryStore.empty.append (policyRequest "ask" 5).normalized).2.append
    policyAnswer.normalized).2.append (policyRequest "again" 20).normalized).2

theorem after_policyTwice : inMemory.after policyTwice = ⟨policyTwiceStore, 0⟩ := by
  simp only [policyTwice, after, inMemory, Ledger.on]
  rw [next_submit_of_ordered (by decide +kernel) (by decide +kernel) (by decide +kernel),
    next_submit_of_ordered (by decide +kernel) (by decide +kernel) (by decide +kernel),
    next_submit_of_ordered (by decide +kernel) (by decide +kernel) (by decide +kernel)]
  rfl

theorem readOrder_policyTwice :
    policyTwiceStore.readOrder "run" = (policyTwiceStore.run "run").records :=
  MemoryStore.readOrder_of_ordered (by decide +kernel)

/-- The second request is the only one of its policy decision that any run waits for, nobody else
uses its identifier or the one that its answer would get, and no answer seems to name it.  Still
who answers the decision is refused: the request that has been answered counts as well. -/
theorem answered_request_hides_the_open_one :
    ∃ target, (inMemory.after policyTwice).store.WaitsForDecision "run" "policy"
        (policyRequest "again" 20).toOpenRequest target ∧
      (∀ runId request other,
        (inMemory.after policyTwice).store.WaitsForDecision runId "policy" request other →
        other = target) ∧
      ¬ (inMemory.after policyTwice).store.UsedElsewhere "run" "again" ∧
      ¬ HoldsNamedAnswer "again" ((inMemory.after policyTwice).store.readOrder "run") ∧
      (∀ r ∈ (inMemory.after policyTwice).store.readOrder "run", r.eventId ≠
        ((inMemory.after policyTwice).answerTo stillSurroundings
          ⟨.approved, "alice", none⟩ target).id) ∧
      resolve .standard stillSurroundings (.decision "policy") ⟨.approved, "alice", none⟩
          (inMemory.after policyTwice) =
        (.error (.ambiguousEvent "policy"), inMemory.after policyTwice) := by
  have hs := sound_after policyTwice
  rw [after_policyTwice] at hs ⊢
  obtain ⟨target, hmem, hnamed, hcarries⟩ : ∃ target ∈ (policyTwiceStore.run "run").records,
      target.eventId = "again" ∧ target.carries "policy" = true := by decide +kernel
  rw [← readOrder_policyTwice] at hmem
  have hwaits : policyTwiceStore.WaitsForDecision "run" "policy"
      (policyRequest "again" 20).toOpenRequest target := by
    refine ⟨⟨?_, hmem, hnamed⟩, hcarries⟩
    rw [readOrder_policyTwice]
    decide +kernel
  have ⟨⟨log, hlog⟩, _⟩ := hs
  have hrun {r : Record} (hr : r ∈ log) : r.runId = "run" := by
    have hall : ∀ r ∈ policyTwiceStore.records, r.runId = "run" := by decide +kernel
    exact hall r (hlog.mem_records.mpr hr)
  refine ⟨target, hwaits, ?_, ?_, ?_, ?_, ?_⟩
  · intro runId request other hother
    obtain ⟨hlogged, hotherRun⟩ := hlog.mem_readOrder.mp hother.mem
    obtain rfl : "run" = runId := (hrun hlogged).symm.trans hotherRun
    exact (hwaits.toWaitsOn.unique hs hother.toWaitsOn).2
  · rintro ⟨other, hother, r, hr, -⟩
    obtain ⟨hlogged, hotherRun⟩ := hlog.mem_readOrder.mp hr
    exact hother (hotherRun.symm.trans (hrun hlogged))
  · rw [readOrder_policyTwice]
    decide +kernel
  · have hall : ∀ x ∈ (policyTwiceStore.run "run").records,
        ∀ r ∈ (policyTwiceStore.run "run").records, r.eventId ≠
          (Resolution.toEvent ⟨.approved, "alice", none⟩ x
            (timeAfter (policyTwiceStore.run "run").records .epoch) "t").normalized.id := by
      decide +kernel
    rw [answerTo, (hlog.mem_readOrder.mp hmem).2, readOrder_policyTwice]
    rw [readOrder_policyTwice] at hmem
    exact hall target hmem
  · obtain ⟨first, hfirst, hasked, hbelongs, hdiffers⟩ : ∃ first ∈ policyTwiceStore.records,
        first.event.isRequest = true ∧ first.carries "policy" = true ∧
          first.eventId ≠ "again" := by decide +kernel
    have hothers : policyTwiceStore.AskedApart "policy" target :=
      ⟨first, hlog.mem_requestsOf.mpr ⟨hlog.mem_records.mp hfirst, hbelongs, hasked⟩,
        fun heq => hdiffers (heq ▸ hnamed)⟩
    have hfound : requestOfDecision "policy" (Ledger.mk policyTwiceStore 0) = _ :=
      requestOfDecision_of_askedApart hs hwaits hothers
    have htarget : targetEvent (.decision "policy") (Ledger.mk policyTwiceStore 0) =
        requestOfDecision "policy" (Ledger.mk policyTwiceStore 0) := by
      have htrim : trim "policy" = "policy" := by decide +kernel
      rw [targetEvent, htrim]
    rw [resolve, bind_apply, htarget, hfound]

end Ledger

end RunLedger
