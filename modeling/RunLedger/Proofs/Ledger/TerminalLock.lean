/-
  Proofs/Ledger/TerminalLock.lean --- a run that has ended stays as it is.

  WHAT THIS FILE IS FOR.  The end of a run is an event like any other, and an event
  that is dated before it would fit into the history of its run.  Still nothing is
  recorded in the run any more: the gate looks at the status that the run has now,
  before it looks at the place of an event.  So the records of a run that has ended
  never change, and each event that is submitted to it is refused for that reason
  first.
-/
import RunLedger.Proofs.Event.Decode
import RunLedger.Proofs.Ledger.Acceptance

set_option autoImplicit false

namespace RunLedger

/-- The event that a document stands for has been trimmed and checked. -/
theorem Event.normalized_of_ofSubmission? {value : Json} {event : Event}
    (h : ofSubmission? value = .ok event) :
    event.normalized = event ∧ event.problems = [] := by
  obtain ⟨decoded, -, rfl, hproblems⟩ := exists_of_ofSubmission? h
  exact ⟨normalized_normalized _, hproblems⟩

namespace Gate

/-- An event of a run that has ended breaks the rule about that, and this is reported first. -/
theorem violations_of_ended {event : Event} {history : List Record} {state : RunState}
    (hstate : RunState.ofRecords history = .ok state) (hended : state.status.isTerminal = true) :
    ∃ others, violations event history =
      ⟨"type", terminalMessage state.status, .state .terminalState, .terminalLock⟩ :: others := by
  refine ⟨kindRules event history state, ?_⟩
  unfold violations endedRules
  rw [hstate]
  dsimp only
  rw [if_pos hended]
  rfl

end Gate

namespace MemoryStore

/-- The run has ended, and stands where it does. -/
structure EndedAt (store : MemoryStore) (runId : String) (state : RunState) : Prop where
  stands : RunState.ofRecords (store.readOrder runId) = .ok state
  ended : state.status.isTerminal = true

/-- A record that is accepted belongs to a run that has not ended. -/
theorem EndedAt.runId_ne {s t : MemoryStore} {r : Record} {runId : String} {state : RunState}
    (h : s.EndedAt runId state) (haccepts : s.Accepts r t) : r.runId ≠ runId := by
  intro hrun
  obtain ⟨current, -, hcurrent, halive, -⟩ := Gate.violations_eq_nil_iff.mp haccepts.gated
  rw [hrun, h.stands] at hcurrent
  obtain rfl := Except.ok.inj hcurrent
  rw [h.ended] at halive
  cases halive

/-- What the store keeps of the run is what another one keeps of it: the listings of the run, in
read order and in the order of its places, are the same. -/
structure SameRun (s t : MemoryStore) (runId : String) : Prop where
  read : t.readOrder runId = s.readOrder runId
  chain : (t.run runId).records = (s.run runId).records

theorem SameRun.endedAt {s t : MemoryStore} {runId : String} {state : RunState}
    (h : s.SameRun t runId) (hended : s.EndedAt runId state) : t.EndedAt runId state :=
  ⟨by rw [h.read, hended.stands], hended.ended⟩

/-- A record of another run leaves the run as it is. -/
theorem Accepts.sameRun {s t : MemoryStore} {r : Record} {runId : String} (h : s.Accepts r t)
    (hrun : r.runId ≠ runId) : s.SameRun t runId where
  read := readOrder_other h.appended hrun.symm
  chain := by rw [run_append h.appended, if_neg hrun.symm]

/-- Whatever is accepted after a run has ended is accepted in other runs. -/
theorem EndedAt.of_chain {s t : MemoryStore} {runId : String} {state : RunState}
    (h : s.EndedAt runId state)
    (hchain : Relation.ReflTransGen (fun s t => ∃ r, s.Accepts r t) s t) :
    s.SameRun t runId ∧
      Relation.ReflTransGen (fun s t => ∃ r, s.Accepts r t ∧ r.runId ≠ runId) s t := by
  induction hchain with
  | refl => exact ⟨⟨rfl, rfl⟩, .refl⟩
  | tail _ haccepts ih =>
    obtain ⟨hsame, hothers⟩ := ih
    obtain ⟨r, haccepts⟩ := haccepts
    have hrun := (hsame.endedAt h).runId_ne haccepts
    have hstep := haccepts.sameRun hrun
    exact ⟨⟨hstep.read.trans hsame.read, hstep.chain.trans hsame.chain⟩,
      hothers.tail ⟨r, haccepts, hrun⟩⟩

end MemoryStore

namespace Ledger

/-- The request was refused because of broken rules, first among them that the run has ended. -/
def RefusedAsEnded (answer : Except RequestError Record) : Prop :=
  ∃ first others, answer = .error (.rules (first :: others)) ∧
    first.code.name = "TERMINAL_STATE_CONFLICT" ∧ first.rule.id = "RULE-GATE-005"

section

variable {ledger : Ledger MemoryStore} {runId : String} {state : RunState}

/-- An event without problems is refused by a run that has ended, and changes nothing. -/
theorem submit_of_ended (h : ledger.store.EndedAt runId state) {event : Event}
    (hrun : event.normalized.runId = runId) (hproblems : event.normalized.problems = []) :
    RefusedAsEnded (submit event ledger).1 ∧ (submit event ledger).2 = ledger := by
  obtain ⟨others, hothers⟩ : ∃ others, Gate.violations event.normalized
      (ledger.store.readOrder event.normalized.runId) = _ :: others :=
    Gate.violations_of_ended (hrun ▸ h.stands) h.ended
  rw [submit_apply, hproblems]
  dsimp only
  rw [hothers]
  exact ⟨⟨_, others, rfl, rfl, rfl⟩, rfl⟩

/-- The same holds of an event that is handed in as a document. -/
theorem submitDocument_of_ended (h : ledger.store.EndedAt runId state) {value : Json}
    {event : Event} (hvalue : Event.ofSubmission? value = .ok event) (hrun : event.runId = runId) :
    RefusedAsEnded (submitDocument value ledger).1 ∧ (submitDocument value ledger).2 = ledger := by
  obtain ⟨hnormal, hproblems⟩ := Event.normalized_of_ofSubmission? hvalue
  have hsubmit : submitDocument value ledger = submit event ledger := by
    unfold submitDocument
    rw [hvalue]
  rw [hsubmit]
  apply submit_of_ended h
  · rw [hnormal, hrun]
  · rw [hnormal, hproblems]

end

/-- Whatever has been asked of a fresh ledger, in whatever order: once a run has ended, every event
that any further requests put on record belongs to another run.  So the listings of the run stay as
they are, and with them its status; and an event of the run that has no problems, at whatever
time it is submitted by itself or by a request, is refused because the run has ended. -/
theorem ended_run_is_locked (operations : List (Operation MemoryStore)) (runId : String)
    (state : RunState)
    (hstate : RunState.ofRecords ((inMemory.after operations).store.readOrder runId) = .ok state)
    (hended : state.status.isTerminal = true) :
    (∀ further,
      Relation.ReflTransGen (fun s t => ∃ r, s.Accepts r t ∧ r.runId ≠ runId)
        (inMemory.after operations).store (inMemory.after (operations ++ further)).store ∧
      (inMemory.after operations).store.SameRun
        (inMemory.after (operations ++ further)).store runId ∧
      RunState.ofRecords ((inMemory.after (operations ++ further)).store.readOrder runId) =
        .ok state) ∧
    ∀ ledger : Ledger MemoryStore,
      Relation.ReflTransGen (fun s t => ∃ r, s.Accepts r t)
        (inMemory.after operations).store ledger.store →
      (∀ event : Event, event.normalized.runId = runId → event.normalized.problems = [] →
        RefusedAsEnded (submit event ledger).1 ∧ (submit event ledger).2 = ledger) ∧
      ∀ value event, Event.ofSubmission? value = .ok event → event.runId = runId →
        RefusedAsEnded (submitDocument value ledger).1 ∧
          (submitDocument value ledger).2 = ledger := by
  have hlocked : (inMemory.after operations).store.EndedAt runId state := ⟨hstate, hended⟩
  constructor
  · intro further
    have hchain := reflTransGen_after stepsOf_accepts (inMemory.after operations) further
    rw [← after_append] at hchain
    obtain ⟨hsame, hothers⟩ := hlocked.of_chain hchain
    exact ⟨hothers, hsame, (hsame.endedAt hlocked).stands⟩
  · intro ledger hchain
    have hstill := (hlocked.of_chain hchain).1.endedAt hlocked
    refine ⟨?_, ?_⟩
    · intro event hrun hproblems
      exact submit_of_ended hstill hrun hproblems
    · intro value event hvalue hrun
      exact submitDocument_of_ended hstill hvalue hrun

/-- The summary that completes the run, twenty milliseconds after the start. -/
def letterSent : Event :=
  Event.plain "sent" "run" (Time.Instant.epoch.addMillis 20) .summary .agent "Sent"
    "The letter is sent."

/-- After the summary, an action that is dated before it is refused, also when other requests have
been made in between. -/
theorem completed_run_refuses_the_draft :
    RefusedAsEnded
      (submit letterDraft (inMemory.after [.submit letterSent, .submit letterRequest])).1 := by
  obtain ⟨hrecords, hrefuses⟩ := ended_run_is_locked [.submit letterSent] "run" ⟨.completed, none⟩
    (by decide +kernel) (by decide +kernel)
  have hchain := reflTransGen_after stepsOf_accepts (inMemory.after [.submit letterSent])
    [.submit letterRequest]
  rw [← after_append] at hchain
  obtain ⟨hsubmit, -⟩ := hrefuses _ hchain
  exact (hsubmit letterDraft (by decide +kernel) (by decide +kernel)).1

end Ledger

end RunLedger
