/-
  Proofs/Approval/Lookup.lean --- by which identifier a policy decision is found.

  WHAT THIS FILE IS FOR.  An event is put on record with the identifier of its policy
  decision as it was handed in.  Who asks about a policy decision has the blanks at
  the ends of its identifier taken away first.  So a policy decision is found by the
  identifier that an event carries if there are no such blanks, and otherwise only
  if another event carries the identifier without them.
-/
import RunLedger.Proofs.Approval.DecisionStage
import RunLedger.Proofs.Approval.Repetition
import RunLedger.Proofs.Audit.Completeness

set_option autoImplicit false

namespace RunLedger

open RunLedger.Text (trim)

namespace Ledger

variable {ledger next : Ledger MemoryStore} {log : List Record} {decisionId : String}
  {around : Surroundings} {request : ApprovalRequest}

/-! ## What is said of a policy decision -/

/-- The policy decision is found by this identifier: neither where it stands nor its trail is said to
be unknown. -/
structure Finds (ledger : Ledger MemoryStore) (decisionId : String) : Prop where
  state : ∀ id key next,
    decisionState decisionId ledger ≠ (.error (.approvalNotFound id key), next)
  trail : ∀ id key next,
    decisionTrail decisionId ledger ≠ (.error (.approvalNotFound id key), next)

/-- Whoever asks for an approval of the policy decision is refused: because it has been asked or
answered already, or because the identifier is blank. -/
def RefusesAgain (ledger : Ledger MemoryStore) (decisionId : String) : Prop :=
  ∀ around request, request.decisionId = decisionId →
    (trim decisionId = "" ∧ register around request ledger =
      (.error (.store (.schemaValidation [ApprovalRequest.noDecision])), ledger)) ∨
    (trim decisionId ≠ "" ∧ ∃ repetition, repetition ≠ .exists ∧
      register around request ledger =
        (.error (.duplicateApproval (trim decisionId) repetition), ledger))

/-! ## Where it stands -/

theorem decisionState_trim (decisionId : String) :
    (decisionState (trim decisionId) : LedgerM MemoryStore _) = decisionState decisionId := by
  rw [decisionState, decisionState, Text.trim_trim]

/-- Where a policy decision stands is known exactly if a record belongs to it. -/
theorem decisionState_cases (ledger : Ledger MemoryStore) (decisionId : String) :
    (ledger.store.Unasked (trim decisionId) ∧ decisionState decisionId ledger =
      (.error (.approvalNotFound (trim decisionId) .decisionId), ledger)) ∨
    (¬ ledger.store.Unasked (trim decisionId) ∧
      ∃ state, decisionState decisionId ledger = (.ok state, ledger)) := by
  rw [← decisionState_trim]
  by_cases hunasked : ledger.store.Unasked (trim decisionId)
  · refine .inl ⟨hunasked, Prod.ext (hunasked.decisionState (Text.trim_trim decisionId)) ?_⟩
    rw [decisionState_apply (Text.trim_trim decisionId)]
    split <;> rfl
  · refine .inr ⟨hunasked, ?_⟩
    obtain ⟨r, hr, hcarries⟩ : ∃ r ∈ ledger.store.records, r.carries (trim decisionId) = true := by
      simpa [MemoryStore.Unasked] using hunasked
    obtain ⟨state, last, hstate, -⟩ :=
      DecisionState.exists_of_mem (trim decisionId) (mem_carriers.mpr ⟨hr, hcarries⟩)
    rw [decisionState_apply (Text.trim_trim decisionId), hstate]
    exact ⟨state, rfl⟩

/-! ## Its trail -/

/-- The trail of a policy decision is not known exactly if no record belongs to it. -/
theorem decisionTrail_cases (hholds : ledger.store.Holds log) (hlog : Sealed log)
    (decisionId : String) :
    (ledger.store.Unasked (trim decisionId) ∧ decisionTrail decisionId ledger =
      (.error (.approvalNotFound (trim decisionId) .decisionId), ledger)) ∨
    (¬ ledger.store.Unasked (trim decisionId) ∧ ∀ id key next,
      decisionTrail decisionId ledger ≠ (.error (.approvalNotFound id key), next)) := by
  have hruns := ledger.store.runsOf_carriers (trim decisionId)
  simp only [ne_eq, decisionTrail_eq_iff hholds hlog, MemoryStore.Unasked, ← hruns.eq_nil_iff]
  rcases runIdsOf (ledger.store.carriersOf (trim decisionId)) with _ | ⟨runId, _ | ⟨other, rest⟩⟩
  · simp
  · simp
  · simp

/-- A policy decision is found exactly if an event on record carries the identifier without blanks
at its ends. -/
theorem finds_iff (decisionId : String) (hholds : ledger.store.Holds log) (hlog : Sealed log) :
    ledger.Finds decisionId ↔
      ∃ r ∈ ledger.store.records, r.event.decision? = some (trim decisionId) := by
  have hknown : (∃ r ∈ ledger.store.records, r.event.decision? = some (trim decisionId)) ↔
      ¬ ledger.store.Unasked (trim decisionId) := by
    simp [MemoryStore.Unasked, Record.carries]
  rw [hknown]
  constructor
  · intro hfinds hunasked
    rcases decisionState_cases ledger decisionId with ⟨-, hstate⟩ | ⟨hasked, -⟩
    · exact hfinds.state _ _ _ hstate
    · exact hasked hunasked
  · intro hasked
    constructor
    · intro id key next hstate
      rcases decisionState_cases ledger decisionId with ⟨hunasked, -⟩ | ⟨-, state, hok⟩
      · exact hasked hunasked
      · rw [hok] at hstate
        cases (Prod.mk.inj hstate).1
    · rcases decisionTrail_cases hholds hlog decisionId with ⟨hunasked, -⟩ | ⟨-, htrail⟩
      · exact absurd hunasked hasked
      · exact htrail

/-! ## Asking again -/

theorem register_of_blank (hblank : trim request.decisionId = "") :
    register around request ledger =
      (.error (.store (.schemaValidation [ApprovalRequest.noDecision])), ledger) := by
  unfold register
  dsimp only
  rw [if_pos hblank, throw_bind]
  rfl

/-- Whoever asks again is refused exactly if the identifier is blank, or an event on record that asks
or answers carries it without blanks at its ends. -/
theorem refusesAgain_iff (decisionId : String) (hs : ledger.store.Sound) :
    ledger.RefusesAgain decisionId ↔
      trim decisionId = "" ∨ ∃ r ∈ ledger.store.records,
        r.isSignal = true ∧ r.event.decision? = some (trim decisionId) := by
  have hdecided : (∃ r ∈ ledger.store.records, r.isSignal = true ∧
      r.event.decision? = some (trim decisionId)) ↔
      ¬ ledger.store.IsUndecided (trim decisionId) := by
    simp [MemoryStore.IsUndecided, Record.carries]
  rw [hdecided]
  constructor
  · intro hrefuses
    -- Every request is refused, so this one is, of which nothing but the identifier matters.
    rcases hrefuses stillSurroundings ⟨decisionId, "", "", "", "", .low, none⟩ rfl with
      ⟨hblank, -⟩ | ⟨-, repetition, hsignal, hrefused⟩
    · exact .inl hblank
    · obtain ⟨-, ⟨-, hexists⟩ | ⟨last, hlast, -⟩⟩ := repetition_of_register hrefused
      · exact absurd hexists hsignal
      · refine .inr fun hundecided => ?_
        rw [MemoryStore.lastSignal?_eq_none_iff.mpr hundecided] at hlast
        cases hlast
  · intro hsigned around request hdecision
    subst hdecision
    by_cases hblank : trim request.decisionId = ""
    · exact .inl ⟨hblank, register_of_blank hblank⟩
    · obtain ⟨last, hlast, -⟩ := hs.exists_isLastSignal (hsigned.resolve_left hblank)
      exact .inr ⟨hblank, _, Repetition.ofSignal_ne_exists, register_of_lastSignal hblank hlast⟩

/-- Whatever has been asked of a fresh ledger, in whatever order: the policy decision of an event on
record is found by the identifier that the event carries exactly if an event on record carries it
without blanks at its ends, and whoever asks for its approval again is refused exactly if it is
blank or an event that asks or answers carries it so.  Where there are no such blanks, the event
itself does, and signals are not repeated. -/
theorem decision_is_found_without_blanks (operations : List (Operation MemoryStore)) (r : Record)
    (decisionId : String) (hr : r ∈ (inMemory.after operations).store.records)
    (hdecision : r.event.decision? = some decisionId) :
    ((inMemory.after operations).Finds decisionId ↔
      ∃ x ∈ (inMemory.after operations).store.records,
        x.event.decision? = some (trim decisionId)) ∧
    ((inMemory.after operations).RefusesAgain decisionId ↔
      trim decisionId = "" ∨ ∃ x ∈ (inMemory.after operations).store.records,
        x.isSignal = true ∧ x.event.decision? = some (trim decisionId)) ∧
    (trim decisionId = decisionId → (inMemory.after operations).Finds decisionId ∧
      (r.isSignal = true → (inMemory.after operations).RefusesAgain decisionId)) := by
  obtain ⟨log, hholds, hlog⟩ := exists_sealed_log operations
  have hfinds := finds_iff decisionId hholds hlog
  have hrefuses := refusesAgain_iff decisionId (sound_after operations)
  refine ⟨hfinds, hrefuses, fun htrim => ?_⟩
  rw [hfinds, hrefuses, htrim]
  exact ⟨⟨r, hr, hdecision⟩, fun hsignal => .inr ⟨r, hr, hsignal, hdecision⟩⟩

/-- The policy decision on a letter is found, and not asked about again. -/
theorem policy_is_found :
    (inMemory.after [.submit (policyRequest "ask" 5)]).Finds "policy" ∧
      (inMemory.after [.submit (policyRequest "ask" 5)]).RefusesAgain "policy" := by
  obtain ⟨r, hr, hsignal, hdecision⟩ :
      ∃ r ∈ (inMemory.after [.submit (policyRequest "ask" 5)]).store.records,
        r.isSignal = true ∧ r.event.decision? = some "policy" := by decide +kernel
  obtain ⟨hfinds, hrefuses⟩ :=
    (decision_is_found_without_blanks _ r "policy" hr hdecision).2.2 (by decide +kernel)
  exact ⟨hfinds, hrefuses hsignal⟩

/-! ## An identifier with blanks around it -/

/-- A request for the policy decision on a letter, with blanks around its identifier. -/
def paddedRequest : Event :=
  { policyRequest "ask" 5 with
    approval := { Approval.pending "agent" with decisionId := some " policy " } }

/-- Asking about the policy decision by that identifier, in another run. -/
def paddedAgain : ApprovalRequest :=
  ⟨" policy ", "elsewhere", "agent", "Send the letter?", "The letter is ready.", .low, none⟩

/-- The request is put on record with the blanks.  By the identifier that it carries the policy
decision is not found, and a second request for it is registered. -/
theorem padded_policy_is_not_found :
    (∃ r ∈ (inMemory.after [.submit paddedRequest]).store.records,
      r.isSignal = true ∧ r.event.decision? = some " policy ") ∧
    ¬ (inMemory.after [.submit paddedRequest]).Finds " policy " ∧
    ∃ registration next, register stillSurroundings paddedAgain
      (inMemory.after [.submit paddedRequest]) = (.ok registration, next) := by
  have hs := sound_after [.submit paddedRequest]
  have hnone : ∀ r ∈ (inMemory.after [.submit paddedRequest]).store.records,
      r.event.decision? ≠ some (trim " policy ") := by decide +kernel
  obtain ⟨log, hholds, hlog⟩ := exists_sealed_log [.submit paddedRequest]
  refine ⟨by decide +kernel, ?_, ?_⟩
  · rw [finds_iff " policy " hholds hlog]
    rintro ⟨r, hr, hdecision⟩
    exact hnone r hr hdecision
  · have htakes : (inMemory.after [.submit paddedRequest]).store.TakesRequest
        (trim paddedAgain.runId) := .inr ⟨.start, by decide +kernel, .inl rfl⟩
    have hproblems : ((inMemory.after [.submit paddedRequest]).requestFor stillSurroundings
        paddedAgain).problems = [] :=
      ApprovalRequest.problems_toEvent (by decide) (by decide) (by decide)
    obtain ⟨r, t, hevent, haccepts⟩ :=
      exists_accepts_requestFor hs hproblems htakes (by decide +kernel)
    exact ⟨_, ⟨t, (inMemory.after [.submit paddedRequest]).drawn + 1⟩,
      register_eq_ok_iff.mpr
        ⟨by decide +kernel, by decide +kernel, r, hevent, haccepts, rfl, rfl⟩⟩

end Ledger

end RunLedger
