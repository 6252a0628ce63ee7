/-
  Proofs/Approval/Registration.lean --- when a request is registered.

  WHAT THIS FILE IS FOR.  Who asks for an approval has to get past a look at all runs
  for the policy decision, the check of the event that is made for the request, and
  the gate, which walks along the run with that event in it.  The event is made so
  that it can fail for two reasons only: the policy decision is on record already, or
  the run does not take a request where it stands.

  WHAT IS ASSUMED.  The event may be dated a millisecond after the latest of its run;
  as in Time/Instant, that is still a date.
-/
import RunLedger.Proofs.Approval.ApprovalCall
import RunLedger.Proofs.Ledger.StatusMoves

set_option autoImplicit false

namespace RunLedger

open RunLedger.Text (trim isBlankText)

/-! ## The event for a request -/

namespace ApprovalRequest

variable {request : ApprovalRequest} {at_ : Time.Instant} {token : String}

/-- The event for a request with a run, a title and details has no problems. -/
theorem problems_toEvent (hrun : isBlankText request.runId = false)
    (htitle : isBlankText request.title = false) (hdetails : isBlankText request.details = false) :
    (request.toEvent at_ token).normalized.problems = [] := by
  have hid : isBlankText (request.toEvent at_ token).id = false := by
    have h : (request.toEvent at_ token).id = "evt_" ++ trim request.decisionId ++ "_pending_" ++
        at_.unpunctuated ++ "_" ++ token := rfl
    rw [h]
    exact Text.isBlankText_eq_false (c := 'e') (by simp) (by decide)
  refine Event.problems_normalized_eq_nil_iff.mpr ⟨?_, hdetails, hid, hrun, htitle⟩
  rintro x ⟨⟩

/-- The event for a request keeps the rules for requests. -/
theorem kindRules_toEvent (history : List Record) (p : RunState) :
    Gate.kindRules (request.toEvent at_ token).normalized history p = [] := rfl

end ApprovalRequest

/-! ## Where a run takes a request -/

namespace MemoryStore

variable {store : MemoryStore} {runId : String}

/-- The run takes a request: it has no events, or it is running or approved. -/
def TakesRequest (store : MemoryStore) (runId : String) : Prop :=
  store.readOrder runId = [] ∨
    ∃ p, RunState.ofRecords (store.readOrder runId) = .ok p ∧
      (p.status = .running ∨ p.status = .approved)

/-- A run takes a request exactly if it goes on and waits for nothing. -/
theorem takesRequest_iff :
    store.TakesRequest runId ↔
      ∃ p, RunState.ofRecords (store.readOrder runId) = .ok p ∧ p.IsOpen ∧ p.pending = none := by
  constructor
  · rintro (hempty | ⟨p, hp, hstatus⟩)
    · refine ⟨.start, by rw [hempty]; rfl, ⟨rfl, ?_⟩, rfl⟩
      exact fun h => nomatch h
    · have hcoherent := RunState.coherent_of_steps RunState.coherent_start hp
      have hpaused : p.status ≠ .paused := by
        rcases hstatus with hstatus | hstatus <;> simp [hstatus]
      have hfree : p.pending = none :=
        Option.not_isSome_iff_eq_none.mp fun hwaits => hpaused (hcoherent.mpr hwaits)
      refine ⟨p, hp, ⟨?_, ?_⟩, hfree⟩
      · rcases hstatus with hstatus | hstatus <;> simp [hstatus, RunStatus.isTerminal]
      · rcases hstatus with hstatus | hstatus <;> simp [hstatus]
  · rintro ⟨p, hp, hopen, hfree⟩
    have hcoherent := RunState.coherent_of_steps RunState.coherent_start hp
    exact .inr ⟨p, hp, RunState.status_of_free hcoherent hopen hfree⟩

/-- With the registration the store `s` becomes `t`: the run of the request waits for it, no other
event asks or answers its policy decision, and the other runs are left alone. -/
structure TakesOn (s : MemoryStore) (registration : Registration) (t : MemoryStore) : Prop where
  waits : ∃ request, RunState.ofRecords (t.readOrder registration.runId) =
      .ok ⟨.paused, some request⟩ ∧
    request.eventId = registration.eventId
  only : ∃ r, r.eventId = registration.eventId ∧ r.runId = registration.runId ∧
    ∀ x, (x ∈ t.records ∧ x.isSignal = true ∧ x.carries registration.decisionId = true) ↔ x = r
  others : ∀ runId, runId ≠ registration.runId → s.SameRun t runId

theorem Asks.takesOn {s t : MemoryStore} {registration : Registration} {r : Record}
    (h : s.Asks registration.decisionId r t) (hs : s.Sound)
    (hevent : registration.eventId = r.eventId) (hrun : registration.runId = r.runId) :
    s.TakesOn registration t := by
  refine ⟨⟨_, hrun ▸ h.waits.paused, h.waits.named.symm.trans hevent.symm⟩,
    ⟨r, hevent.symm, hrun.symm, ?_⟩, fun runId hother => h.accepted.sameRun ?_⟩
  · intro x
    have hsignal : r.isSignal = true := by
      rw [Record.isSignal, h.request]
      rfl
    have hcarries : r.carries registration.decisionId = true := by
      rw [Record.carries, h.decision]
      exact beq_self_eq_true _
    rw [h.accepted.mem_records hs]
    constructor
    · rintro ⟨hold | rfl, hx, hxcarries⟩
      · rw [h.isNew x hold hx] at hxcarries
        cases hxcarries
      · rfl
    · rintro rfl
      exact ⟨.inr rfl, hsignal, hcarries⟩
  · rw [← hrun]
    exact hother.symm

end MemoryStore

/-! ## Registering -/

namespace Ledger

variable {ledger next : Ledger MemoryStore} {around : Surroundings} {request : ApprovalRequest}
  {r : Record} {t : MemoryStore}

/-- The run of a request that is accepted takes requests. -/
theorem takesRequest_of_accepts (hs : ledger.store.Sound)
    (hevent : r.event = ledger.requestFor around request) (haccepts : ledger.store.Accepts r t) :
    ledger.store.TakesRequest (trim request.runId) := by
  have hrun : r.runId = trim request.runId := congrArg Event.runId hevent
  have hrole : r.event.role = .asks := hevent ▸ role_requestFor
  obtain ⟨p, q, hp, hmoves, -⟩ := (comesLast_of_requestFor hs hevent haccepts).exists_moves
  obtain ⟨hopen, hfree, -⟩ := (RunState.moves_iff_of_asks hrole).mp hmoves
  exact MemoryStore.takesRequest_iff.mpr ⟨p, hrun ▸ hp, hopen, hfree⟩

/-- A run that takes requests accepts one that has no problems and an identifier that is new in the
run. -/
theorem exists_accepts_requestFor (hs : ledger.store.Sound)
    (hproblems : (ledger.requestFor around request).problems = [])
    (htakes : ledger.store.TakesRequest (trim request.runId))
    (hfresh : ∀ x ∈ ledger.store.readOrder (trim request.runId),
      x.eventId ≠ (ledger.requestFor around request).id) :
    ∃ r t, r.event = ledger.requestFor around request ∧ ledger.store.Accepts r t := by
  obtain ⟨p, hp, hopen, hfree⟩ := MemoryStore.takesRequest_iff.mp htakes
  have hmoves : p.Moves (ledger.requestFor around request)
      ⟨.paused, some (ledger.requestFor around request).toOpenRequest⟩ :=
    (RunState.moves_iff_of_asks role_requestFor).mpr ⟨hopen, hfree, rfl⟩
  have hgated : Gate.violations (ledger.requestFor around request)
      (ledger.store.readOrder (trim request.runId)) = [] :=
    (Gate.violations_eq_nil_iff_of_last fun x hx => le_of_lt (lt_requestFor hs x hx)).mpr
      ⟨p, _, hp, ApprovalRequest.kindRules_toEvent _ p, hmoves⟩
  exact MemoryStore.exists_accepts hs (Event.normalized_normalized _) hproblems hgated hfresh

/-- Whatever has been asked of a fresh ledger, in whatever order, and whatever the clock shows: a
request with a run, a title and details, whose event would get an identifier that is new in the run,
is registered exactly if it belongs to a policy decision, no event on record asks or answers that
one, and the run takes a request.  Then the run waits for the event that the registration names,
which alone is about the policy decision, and the other runs stay as they are. -/
theorem request_is_registered_iff (operations : List (Operation MemoryStore))
    (around : Surroundings) (request : ApprovalRequest)
    (hrun : isBlankText request.runId = false) (htitle : isBlankText request.title = false)
    (hdetails : isBlankText request.details = false)
    (hfresh : ∀ r ∈ (inMemory.after operations).store.readOrder (trim request.runId),
      r.eventId ≠ ((inMemory.after operations).requestFor around request).id) :
    ((∃ registration next, register around request (inMemory.after operations) =
          (.ok registration, next)) ↔
        trim request.decisionId ≠ "" ∧
        (inMemory.after operations).store.IsUndecided (trim request.decisionId) ∧
        (inMemory.after operations).store.TakesRequest (trim request.runId)) ∧
      ∀ registration next, register around request (inMemory.after operations) =
          (.ok registration, next) →
        registration.decisionId = trim request.decisionId ∧
        registration.runId = trim request.runId ∧
        (inMemory.after operations).store.TakesOn registration next.store := by
  have hs := sound_after operations
  generalize inMemory.after operations = ledger at *
  constructor
  · constructor
    · rintro ⟨registration, next, h⟩
      obtain ⟨hdecision, hnew, r, hevent, haccepts, -, -⟩ := register_eq_ok_iff.mp h
      exact ⟨hdecision, hnew, takesRequest_of_accepts hs hevent haccepts⟩
    · rintro ⟨hdecision, hnew, htakes⟩
      obtain ⟨r, t, hevent, haccepts⟩ := exists_accepts_requestFor hs
        (ApprovalRequest.problems_toEvent hrun htitle hdetails) htakes hfresh
      exact ⟨_, ⟨t, ledger.drawn + 1⟩,
        register_eq_ok_iff.mpr ⟨hdecision, hnew, r, hevent, haccepts, rfl, rfl⟩⟩
  · intro registration next h
    obtain ⟨hdecision, hnew, r, hevent, haccepts, -, rfl⟩ := register_eq_ok_iff.mp h
    exact ⟨rfl, congrArg Event.runId hevent,
      (asks_of_accepts hs hdecision hnew hevent haccepts).takesOn hs rfl rfl⟩

/-- A run with a draft in it takes the request for the letter. -/
theorem letter_is_registered_behind_draft :
    ∃ registration next,
      register stillSurroundings
        ⟨" letter ", "run", "agent", "Send it?", "It is ready.", .low, none⟩
        (inMemory.after [.submit letterDraft]) = (.ok registration, next) ∧
      registration.decisionId = "letter" ∧ registration.runId = "run" ∧
      (inMemory.after [.submit letterDraft]).store.TakesOn registration next.store := by
  obtain ⟨hregistered, hopens⟩ := request_is_registered_iff [.submit letterDraft] stillSurroundings
    ⟨" letter ", "run", "agent", "Send it?", "It is ready.", .low, none⟩ (by decide) (by decide)
    (by decide) (by decide +kernel)
  have htakes : (inMemory.after [.submit letterDraft]).store.TakesRequest "run" :=
    .inr ⟨.start, by decide +kernel, .inl rfl⟩
  obtain ⟨registration, next, h⟩ :=
    hregistered.mpr ⟨by decide +kernel, by decide +kernel, htakes⟩
  exact ⟨registration, next, h, hopens registration next h⟩

end Ledger

end RunLedger
