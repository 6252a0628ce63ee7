/-
  Proofs/Approval/DecisionStage.lean --- the stages of a policy decision.

  WHAT THIS FILE IS FOR.  A policy decision that is only asked for and answered is in
  one of three stages: nothing on record belongs to it, or a run waits for the answer
  to its one request, or that request is closed by its answer.  Here it is shown how
  a decision gets from one stage to the next, and what is told of it in each stage
  when it is looked up by itself and in the list of what waits.
-/
import RunLedger.Proofs.Approval.ApprovalCall

set_option autoImplicit false

namespace RunLedger

open RunLedger.Text (trim)

variable {decisionId : String} {asked recorded r : Record} {answer : Answer}

theorem Record.carries_iff : r.carries decisionId = true ↔ r.event.decision? = some decisionId := by
  rw [Record.carries, beq_iff_eq]

namespace MemoryStore

variable {s t : MemoryStore}

theorem Asks.carries_iff {other : String} (h : s.Asks other r t) :
    r.carries decisionId = true ↔ other = decisionId := by
  rw [Record.carries_iff, h.decision, Option.some.injEq]

theorem Settles.carries_eq (h : s.Settles asked answer recorded t) :
    recorded.carries decisionId = asked.carries decisionId := by
  rw [Record.carries, Record.carries, h.decision]

/-! ## The stages of a policy decision -/

/-- Nothing on record belongs to the policy decision. -/
def Unasked (store : MemoryStore) (decisionId : String) : Prop :=
  ∀ r ∈ store.records, r.carries decisionId = false

/-- A run waits for an answer to the one record of the policy decision. -/
structure Pending (store : MemoryStore) (decisionId : String) (asked : Record) : Prop where
  waits : ∃ request, store.WaitsOn asked.runId request asked
  carries : asked.carries decisionId = true
  only : ∀ r ∈ store.records, r.carries decisionId = true → r = asked
  request : asked.event.isRequest = true
  noAnswer : asked.event.isAnswer = false
  status : asked.event.approval.status = .pending

/-- The request of the policy decision has been closed by the answer to it, and nothing else belongs
to the decision. -/
structure Settled (store : MemoryStore) (decisionId : String) (asked recorded : Record)
    (answer : Answer) : Prop where
  mem : asked ∈ store.readOrder asked.runId
  closed : (asked.eventId, recorded.eventId) ∈ RunState.cleared (store.readOrder asked.runId)
  onRecord : recorded ∈ store.records
  carries : asked.carries decisionId = true ∧ recorded.carries decisionId = true
  only : ∀ r ∈ store.records, r.carries decisionId = true → r = asked ∨ r = recorded
  request : asked.event.isRequest = true
  noAnswer : asked.event.isAnswer = false
  noRequest : recorded.event.isRequest = false
  isAnswer : recorded.event.isAnswer = true
  status : recorded.event.approval.status = answer.status

theorem Unasked.accepts (h : s.Unasked decisionId) (hs : s.Sound) (haccepts : s.Accepts r t)
    (hother : r.carries decisionId = false) : t.Unasked decisionId := by
  intro x hx
  rcases (haccepts.mem_records hs).mp hx with hx | rfl
  · exact h x hx
  · exact hother

theorem Unasked.asks (h : s.Unasked decisionId) (hs : s.Sound) (hasks : s.Asks decisionId r t) :
    t.Pending decisionId r := by
  refine ⟨⟨_, hasks.waits⟩, hasks.carries_iff.mpr rfl, ?_, hasks.request, hasks.noAnswer,
    hasks.status⟩
  intro x hx hcarries
  rcases (hasks.accepted.mem_records hs).mp hx with hx | rfl
  · rw [h x hx] at hcarries
    cases hcarries
  · rfl

namespace Pending

variable (h : s.Pending decisionId asked)

include h

/-- What happens in another run leaves the request open. -/
theorem accepts (hs : s.Sound) (haccepts : s.Accepts r t) (hother : r.carries decisionId = false)
    (hrun : r.runId ≠ asked.runId) : t.Pending decisionId asked := by
  obtain ⟨request, hwaits⟩ := h.waits
  have hread := readOrder_other haccepts.appended (Ne.symm hrun)
  refine ⟨⟨request, hread ▸ hwaits.paused, hread ▸ hwaits.mem, hwaits.named⟩, h.carries, ?_,
    h.request, h.noAnswer, h.status⟩
  intro x hx hcarries
  rcases (haccepts.mem_records hs).mp hx with hx | rfl
  · exact h.only x hx hcarries
  · rw [hother] at hcarries
    cases hcarries

theorem mem_records (hs : s.Sound) : asked ∈ s.records := by
  obtain ⟨request, hwaits⟩ := h.waits
  exact hwaits.mem_records hs

theorem not_asks (hs : s.Sound) : ¬ s.Asks decisionId r t := by
  intro hasks
  have hsignal : asked.isSignal = true := by rw [Record.isSignal, h.request, Bool.true_or]
  have hcarries := h.carries
  rw [hasks.isNew asked (h.mem_records hs) hsignal] at hcarries
  cases hcarries

/-- A run that waits is not asked for anything else. -/
theorem runId_ne_of_asks {other : String} (hasks : s.Asks other r t) : r.runId ≠ asked.runId := by
  intro hrun
  obtain ⟨request, hwaits⟩ := h.waits
  obtain ⟨p, hp, hfree⟩ := hasks.free
  rw [hrun, hwaits.paused] at hp
  cases hp
  cases hfree

/-- What is answered in the run is the request that it waits for. -/
theorem eq_of_settles (hs : s.Sound) {other : Record}
    (hsettles : s.Settles other answer recorded t) (hrun : other.runId = asked.runId) :
    other = asked := by
  obtain ⟨request, hwaits⟩ := h.waits
  obtain ⟨request', hwaits', -⟩ := hsettles.closes
  exact (hwaits.unique hs (hrun ▸ hwaits')).2

theorem settles (hs : s.Sound) (hsettles : s.Settles asked answer recorded t) :
    t.Settled decisionId asked recorded answer := by
  obtain ⟨request, hwaits, hcloses⟩ := hsettles.closes
  have haccepts := hcloses.accepted
  refine ⟨(haccepts.mem_readOrder hs).mpr (.inl hwaits.mem), ?_,
    (haccepts.mem_records hs).mpr (.inr rfl), ⟨h.carries, hsettles.carries_eq.trans h.carries⟩, ?_,
    h.request, h.noAnswer, hsettles.noRequest, hsettles.isAnswer, hsettles.status⟩
  · rw [hcloses.closed, hwaits.named]
    simp
  · intro x hx hcarries
    rcases (haccepts.mem_records hs).mp hx with hx | rfl
    · exact .inl (h.only x hx hcarries)
    · exact .inr rfl

end Pending

namespace Settled

variable (h : s.Settled decisionId asked recorded answer)

include h

theorem accepts (hs : s.Sound) (haccepts : s.Accepts r t)
    (hother : r.carries decisionId = false) : t.Settled decisionId asked recorded answer := by
  refine ⟨(haccepts.mem_readOrder hs).mpr (.inl h.mem), ?_,
    (haccepts.mem_records hs).mpr (.inl h.onRecord), h.carries, ?_, h.request, h.noAnswer,
    h.noRequest, h.isAnswer, h.status⟩
  · exact (cleared_prefix_of_accepts s r t hs haccepts asked.runId).subset h.closed
  · intro x hx hcarries
    rcases (haccepts.mem_records hs).mp hx with hx | rfl
    · exact h.only x hx hcarries
    · rw [hother] at hcarries
      cases hcarries

theorem not_asks : ¬ s.Asks decisionId r t := by
  intro hasks
  have hsignal : recorded.isSignal = true := by rw [Record.isSignal, h.isAnswer, Bool.or_true]
  have hcarries := h.carries.2
  rw [hasks.isNew recorded h.onRecord hsignal] at hcarries
  cases hcarries

/-- A request that has been closed is not waited for. -/
theorem not_waitsOn (hs : s.Sound) {request : OpenRequest} :
    ¬ s.WaitsOn asked.runId request asked := by
  intro hwaits
  refine RunState.not_mem_closed_of_pending hwaits.paused rfl (hs.2 asked.runId).distinct ?_
  rw [← hwaits.named]
  exact List.mem_map_of_mem h.closed

/-- No run waits for an answer to the policy decision. -/
theorem carries_eq_false_of_waitsOn (hs : s.Sound) {runId : String} {request : OpenRequest}
    {target : Record} (hwaits : s.WaitsOn runId request target) :
    target.carries decisionId = false := by
  refine Bool.eq_false_iff.mpr fun hcarries => ?_
  have hasks := hwaits.asks hs
  have hrun := hwaits.runId_eq hs
  rcases h.only target (hwaits.mem_records hs) hcarries with rfl | rfl
  · exact h.not_waitsOn hs (hrun ▸ hwaits)
  · rw [h.noRequest] at hasks
    cases hasks

end Settled

end MemoryStore

/-! ## Looking a policy decision up -/

theorem find?_eq_some_of_only {α : Type} (holds : α → Bool) {items : List α} {a : α}
    (hmem : a ∈ items) (ha : holds a = true) (honly : ∀ x ∈ items, holds x = true → x = a) :
    items.find? holds = some a := by
  obtain ⟨found, hfound⟩ := Option.isSome_iff_exists.mp (List.find?_isSome.mpr ⟨a, hmem, ha⟩)
  rw [hfound, honly found (List.mem_of_find?_eq_some hfound) (List.find?_some hfound)]

/-- What is said of a policy decision with records is what its last answer says, if it has one,
and otherwise what its first request says. -/
theorem DecisionState.exists_of_mem (decisionId : String) {records : List Record}
    (hmem : r ∈ records) :
    ∃ state last, ofRecords? decisionId records = some state ∧
      state.status = (((records.reverse.find? fun x => x.event.isAnswer) <|>
        records.find? fun x => x.event.isRequest).getD last).event.approval.status := by
  cases hlast : records.getLast? with
  | none =>
    rw [List.getLast?_eq_none_iff.mp hlast] at hmem
    cases hmem
  | some last =>
    have hstatus : (ofRecords? decisionId records).map status =
        some (((records.reverse.find? fun x => x.event.isAnswer) <|>
          records.find? fun x => x.event.isRequest).getD last).event.approval.status := by
      rw [ofRecords?, hlast]
      rfl
    obtain ⟨state, hstate, hsays⟩ := Option.map_eq_some_iff.mp hstatus
    exact ⟨state, last, hstate, hsays⟩

namespace Ledger

variable {ledger : Ledger MemoryStore}

theorem decisionState_apply (htrim : trim decisionId = decisionId) :
    decisionState decisionId ledger =
      match DecisionState.ofRecords? decisionId ((Record.sortForReading ledger.store.records).filter
        fun r => r.carries decisionId) with
      | some state => (.ok state, ledger)
      | none => (.error (.approvalNotFound decisionId .decisionId), ledger) := by
  rw [decisionState, htrim, bind_apply, recordsOfDecision_apply]
  dsimp only
  generalize DecisionState.ofRecords? decisionId _ = found
  cases found <;> rfl

theorem mem_carriers {x : Record} :
    x ∈ ((Record.sortForReading ledger.store.records).filter fun r => r.carries decisionId) ↔
      x ∈ ledger.store.records ∧ x.carries decisionId = true := by
  rw [List.mem_filter, Record.mem_sortForReading]

end Ledger

namespace MemoryStore

open Ledger

variable {ledger : Ledger MemoryStore}

theorem Unasked.decisionState (h : ledger.store.Unasked decisionId)
    (htrim : trim decisionId = decisionId) :
    (decisionState decisionId ledger).1 = .error (.approvalNotFound decisionId .decisionId) := by
  have hnone : ((Record.sortForReading ledger.store.records).filter
      fun r => r.carries decisionId) = [] := by
    refine List.eq_nil_iff_forall_not_mem.mpr fun x hx => ?_
    obtain ⟨hmem, hcarries⟩ := mem_carriers.mp hx
    rw [h x hmem] at hcarries
    cases hcarries
  rw [decisionState_apply htrim, hnone]
  rfl

theorem Pending.decisionState (h : ledger.store.Pending decisionId asked)
    (hs : ledger.store.Sound) (htrim : trim decisionId = decisionId) :
    ∃ state, (decisionState decisionId ledger).1 = .ok state ∧ state.status = .pending := by
  have hmem := mem_carriers.mpr ⟨h.mem_records hs, h.carries⟩
  obtain ⟨state, last, hstate, hstatus⟩ := DecisionState.exists_of_mem decisionId hmem
  have hnone : (((Record.sortForReading ledger.store.records).filter
      fun r => r.carries decisionId).reverse.find? fun x => x.event.isAnswer) = none := by
    refine List.find?_eq_none.mpr fun x hx => ?_
    obtain ⟨hx, hcarries⟩ := mem_carriers.mp (List.mem_reverse.mp hx)
    rw [h.only x hx hcarries, h.noAnswer]
    decide
  have hrequest := find?_eq_some_of_only (fun x => x.event.isRequest) hmem h.request
    fun x hx _ => h.only x (mem_carriers.mp hx).1 (mem_carriers.mp hx).2
  refine ⟨state, by rw [decisionState_apply htrim, hstate], ?_⟩
  rw [hstatus, hnone, hrequest]
  exact h.status

theorem Settled.decisionState (h : ledger.store.Settled decisionId asked recorded answer)
    (htrim : trim decisionId = decisionId) :
    ∃ state, (decisionState decisionId ledger).1 = .ok state ∧ state.status = answer.status := by
  have hmem := mem_carriers.mpr ⟨h.onRecord, h.carries.2⟩
  obtain ⟨state, last, hstate, hstatus⟩ := DecisionState.exists_of_mem decisionId hmem
  have hanswer : (((Record.sortForReading ledger.store.records).filter
      fun r => r.carries decisionId).reverse.find? fun x => x.event.isAnswer) = some recorded := by
    refine find?_eq_some_of_only _ (List.mem_reverse.mpr hmem) h.isAnswer fun x hx hanswer => ?_
    obtain ⟨hx, hcarries⟩ := mem_carriers.mp (List.mem_reverse.mp hx)
    rcases h.only x hx hcarries with rfl | rfl
    · rw [h.noAnswer] at hanswer
      cases hanswer
    · rfl
  refine ⟨state, by rw [decisionState_apply htrim, hstate], ?_⟩
  rw [hstatus, hanswer]
  exact h.status

/-! ## Finding a policy decision in the list of what waits -/

theorem Pending.filter_waiting (h : ledger.store.Pending decisionId asked)
    (hs : ledger.store.Sound) {waiting : List WaitingRequest}
    (hwaiting : (waitingRequests ledger).1 = .ok waiting) :
    ∃ w, waiting.filter (fun w => w.decisionId == some decisionId) = [w] ∧
      w.eventId = asked.eventId ∧ w.runId = asked.runId := by
  obtain ⟨request, hwaits⟩ := h.waits
  refine ⟨_, filter_waitingRequests hs hwaiting hwaits h.carries ?_, hwaits.named.symm, rfl⟩
  intro runId request' target hwaits' hcarries
  rw [← hwaits'.runId_eq hs, h.only target (hwaits'.mem_records hs) hcarries]

theorem Settled.not_mem_waiting (h : ledger.store.Settled decisionId asked recorded answer)
    (hs : ledger.store.Sound) {waiting : List WaitingRequest}
    (hwaiting : (waitingRequests ledger).1 = .ok waiting) :
    ∀ w ∈ waiting, w.decisionId ≠ some decisionId := by
  intro w hw hcarries
  obtain ⟨runId, request, target, hwaits, rfl⟩ := (mem_waitingRequests hs hwaiting).mp hw
  have hother := h.carries_eq_false_of_waitsOn hs hwaits
  rw [Record.carries_iff.mpr hcarries] at hother
  cases hother

end MemoryStore

end RunLedger
