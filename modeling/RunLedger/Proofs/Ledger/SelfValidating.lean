/-
  Proofs/Ledger/SelfValidating.lean --- a ledger passes its own gate.

  WHAT THIS FILE IS FOR.  The gate sees an event once, when it is handed in.
  Here it is shown that nothing recorded later, however early it is dated, makes
  the gate's verdict out of date: at any time every event of every run still
  passes against the records that are read before it.
-/
import RunLedger.Proofs.Ledger.Acceptance

set_option autoImplicit false

namespace RunLedger

namespace MemoryStore

/-- Every event of every run passes the gate against the records that are read before it. -/
def SelfValidating (store : MemoryStore) : Prop :=
  ∀ runId before r after, store.readOrder runId = before ++ r :: after →
    Gate.violations r.event before = []

theorem Sound.selfValidating {store : MemoryStore} (hs : store.Sound) : store.SelfValidating :=
  fun runId => (hs.2 runId).passes

end MemoryStore

namespace Ledger

/-- Whatever is asked of a fresh ledger, in whatever order: every event passes the gate against
the records that are read before it, every run has a status, and every event that is accepted
next, by itself or as part of any request, is read where the gate put it and leaves all events
passing. -/
theorem every_event_still_passes (operations : List (Operation MemoryStore)) :
    (inMemory.after operations).store.SelfValidating ∧
    (∀ runId, ∃ state,
      RunState.ofRecords ((inMemory.after operations).store.readOrder runId) = .ok state) ∧
    (∀ event r next, submit event (inMemory.after operations) = (.ok r, next) →
      (inMemory.after operations).store.ReadsInPlace r next.store ∧ next.store.SelfValidating) ∧
    ∀ further, Relation.ReflTransGen
      (fun s t => ∃ r, s.Accepts r t ∧ s.ReadsInPlace r t ∧ t.SelfValidating)
      (inMemory.after operations).store (inMemory.after (operations ++ further)).store := by
  have hsound := sound_after operations
  have haccepted (s : MemoryStore) (r : Record) (t : MemoryStore) (hs : s.Sound)
      (h : s.Accepts r t) : s.ReadsInPlace r t ∧ t.SelfValidating :=
    ⟨MemoryStore.readsInPlace_of_accepts s r t hs h, (hs.accepts h).selfValidating⟩
  refine ⟨hsound.selfValidating, ?_, ?_, accepts_after haccepted operations⟩
  · exact fun runId => (hsound.2 runId).exists_state
  · intro event r next hsubmit
    exact haccepted _ r _ hsound (submit_eq_ok_iff.mp hsubmit).2.1

/-- An action that is recorded after a request and dated before it is accepted, read before the
request, and passes. -/
theorem earlier_action_is_read_first :
    ∃ r next,
      submit letterDraft (inMemory.after [.submit letterRequest]) = (.ok r, next) ∧
      (next.store.readOrder "run").map Record.eventId = ["draft", "ask"] := by
  obtain ⟨r, next, hsubmit⟩ : ∃ r next,
      submit letterDraft (inMemory.after [.submit letterRequest]) = (.ok r, next) :=
    exists_of_isOk (by decide +kernel)
  have hevent := (submit_eq_ok_iff.mp hsubmit).1
  have hid : r.eventId = "draft" := by
    rw [Record.eventId, hevent]
    decide +kernel
  have hrun : r.runId = "run" := by
    rw [Record.runId, hevent]
    decide +kernel
  obtain ⟨hinPlace, -⟩ :=
    (every_event_still_passes [.submit letterRequest]).2.2.1 _ r next hsubmit
  have hread := hinPlace.place
  rw [hrun, hevent] at hread
  refine ⟨r, next, hsubmit, ?_⟩
  rw [hread, List.map_append, List.map_cons, hid]
  decide +kernel

end Ledger

end RunLedger
