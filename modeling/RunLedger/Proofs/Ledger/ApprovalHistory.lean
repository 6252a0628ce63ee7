/-
  Proofs/Ledger/ApprovalHistory.lean --- what has been answered stays answered.

  WHAT THIS FILE IS FOR.  Read from its beginning, the history of a run closes
  one request after the other, each by the event that answers it or ends the run.
  An event that is dated back may be read before all of them.  Still it neither
  closes one of these requests itself nor gets in between a request and what
  closed it, so the list of what was closed by what only grows at its end.
-/
import RunLedger.Proofs.Ledger.Acceptance

set_option autoImplicit false

namespace RunLedger

namespace RunState

/-! ## Requests that are closed -/

/-- The requests that events close in a run that stands at `p`, each with the event that closes
it, in the order in which they are closed; by identifiers. -/
def clearedFrom : RunState → List Event → List (String × String)
  | _, [] => []
  | p, event :: rest =>
    match p.step event with
    | .error _ => []
    | .ok q =>
      match p.pending, q.pending with
      | some request, none => (request.eventId, event.id) :: q.clearedFrom rest
      | _, _ => q.clearedFrom rest

/-- The requests that the history of a run closes, each with the event that closes it. -/
def cleared (history : List Record) : List (String × String) :=
  start.clearedFrom (history.map Record.event)

theorem clearedFrom_append {p a : RunState} {first : List Event} (h : p.steps first = .ok a)
    (rest : List Event) :
    p.clearedFrom (first ++ rest) = p.clearedFrom first ++ a.clearedFrom rest := by
  induction first generalizing p with
  | nil =>
    cases h
    rfl
  | cons event first ih =>
    obtain ⟨q, hmoves, hfirst⟩ := steps_cons_eq_ok_iff.mp h
    simp only [List.cons_append, clearedFrom, step_eq_ok_iff.mpr hmoves]
    split
    · rw [ih hfirst, List.cons_append]
    · exact ih hfirst

/-- An event that passes by closes no request. -/
theorem clearedFrom_cons_of_isNeutral {p : RunState} {event : Event} (hopen : p.IsOpen)
    (hneutral : event.IsNeutral) (rest : List Event) :
    p.clearedFrom (event :: rest) = p.pass.clearedFrom rest := by
  simp only [clearedFrom, step_eq_ok_iff.mpr (.passes hopen hneutral), pass_pending]
  cases p.pending <;> rfl

/-- What follows an event that has just passed by an open run closes the same requests. -/
theorem clearedFrom_pass {p : RunState} (hopen : p.IsOpen) (events : List Event) :
    p.pass.clearedFrom events = p.clearedFrom events := by
  cases events with
  | nil => rfl
  | cons event rest => simp only [clearedFrom, step_pass hopen, pass_pending]

theorem clearedFrom_of_neutral {p : RunState} {events : List Event}
    (hneutral : ∀ event ∈ events, event.IsNeutral) : p.clearedFrom events = [] := by
  induction events generalizing p with
  | nil => rfl
  | cons event rest ih =>
    cases hstep : p.step event with
    | error conflict => simp only [clearedFrom, hstep]
    | ok q =>
      have hpasses := hneutral event List.mem_cons_self
      have hq := (step_eq_ok_iff.mp hstep).eq_pass hpasses
      have hopen := (step_eq_ok_iff.mp hstep).isOpen hpasses.1
      rw [clearedFrom_cons_of_isNeutral hopen hpasses, ← hq]
      exact ih fun e he => hneutral e (List.mem_cons_of_mem event he)

/-- An event that can be put into a history closes at most what the history leaves open. -/
theorem Insertion.clearedFrom_prefix {a p q : RunState} {event : Event} {after : List Event}
    (h : Insertion event a after p q) :
    a.clearedFrom after <+: a.clearedFrom (event :: after) := by
  cases h with
  | ends => exact List.nil_prefix
  | answers _ _ _ _ _ hquiet =>
    rw [clearedFrom_of_neutral hquiet]
    exact List.nil_prefix
  | asks _ _ _ _ _ hquiet =>
    rw [clearedFrom_of_neutral hquiet]
    exact List.nil_prefix
  | passes hopen hneutral =>
    have hsame := (clearedFrom_cons_of_isNeutral hopen hneutral after).trans
      (clearedFrom_pass hopen after)
    exact hsame ▸ List.prefix_rfl

end RunState

/-! ## Requests that are closed in a ledger -/

/-- A record that is accepted leaves the closed requests of every run, and adds to them at
most at the end. -/
theorem MemoryStore.cleared_prefix_of_accepts (s : MemoryStore) (r : Record) (t : MemoryStore)
    (hs : s.Sound) (h : s.Accepts r t) (runId : String) :
    RunState.cleared (s.readOrder runId) <+: RunState.cleared (t.readOrder runId) := by
  by_cases hrun : runId = r.runId
  · obtain ⟨before, after, a, p, q, hold, hnew, hpassage⟩ := h.exists_passage hs
    rw [hrun, hold, hnew]
    unfold RunState.cleared
    rw [List.map_append, List.map_append, List.map_cons,
      RunState.clearedFrom_append hpassage.first, RunState.clearedFrom_append hpassage.first,
      List.prefix_append_right_inj]
    exact hpassage.insertion.clearedFrom_prefix
  · exact readOrder_other h.appended hrun ▸ List.prefix_rfl

theorem MemoryStore.cleared_prefix_of_chain {s t : MemoryStore} (runId : String)
    (h : Relation.ReflTransGen
      (fun s t => ∃ r, s.Accepts r t ∧ ∀ runId,
        RunState.cleared (s.readOrder runId) <+: RunState.cleared (t.readOrder runId)) s t) :
    RunState.cleared (s.readOrder runId) <+: RunState.cleared (t.readOrder runId) := by
  induction h with
  | refl => exact List.prefix_rfl
  | tail _ haccepts ih =>
    obtain ⟨r, -, hgrows⟩ := haccepts
    exact ih.trans (hgrows runId)

namespace Ledger

/-- Whatever is asked of a fresh ledger, in whatever order: an event that is accepted next, by
itself or as part of any requests, leaves what was closed by what in every run, and adds to it
at most at the end. -/
theorem closed_requests_only_grow (operations : List (Operation MemoryStore)) :
    (∀ event r next, submit event (inMemory.after operations) = (.ok r, next) → ∀ runId,
      RunState.cleared ((inMemory.after operations).store.readOrder runId) <+:
        RunState.cleared (next.store.readOrder runId)) ∧
    (∀ further, Relation.ReflTransGen
      (fun s t => ∃ r, s.Accepts r t ∧ ∀ runId,
        RunState.cleared (s.readOrder runId) <+: RunState.cleared (t.readOrder runId))
      (inMemory.after operations).store (inMemory.after (operations ++ further)).store) ∧
    ∀ further runId,
      RunState.cleared ((inMemory.after operations).store.readOrder runId) <+:
        RunState.cleared ((inMemory.after (operations ++ further)).store.readOrder runId) := by
  have hchain := accepts_after MemoryStore.cleared_prefix_of_accepts operations
  refine ⟨?_, hchain, ?_⟩
  · intro event r next hsubmit
    exact MemoryStore.cleared_prefix_of_accepts _ r _ (sound_after operations)
      (submit_eq_ok_iff.mp hsubmit).2.1
  · exact fun further runId => MemoryStore.cleared_prefix_of_chain runId (hchain further)

/-- An action that is recorded after a request and its answer, and dated before both, leaves the
two together. -/
theorem answered_letter_stays_closed :
    [("ask", "yes")] <+: RunState.cleared
      ((inMemory.after [.submit letterRequest, .submit letterAnswer, .submit letterDraft])
        |>.store.readOrder "run") := by
  obtain ⟨r, next, hsubmit⟩ : ∃ r next,
      submit letterAnswer (inMemory.after [.submit letterRequest]) = (.ok r, next) :=
    exists_of_isOk (by decide +kernel)
  obtain ⟨hevent, haccepts, -⟩ := submit_eq_ok_iff.mp hsubmit
  have hrun : r.runId = "run" := by
    rw [Record.runId, hevent]
    decide +kernel
  have hread := (MemoryStore.readsInPlace_of_accepts _ r _ (sound_after _) haccepts).place
  rw [hrun, hevent] at hread
  have hclosed : RunState.cleared (next.store.readOrder "run") = [("ask", "yes")] := by
    rw [hread, RunState.cleared, List.map_append, List.map_cons, hevent]
    decide +kernel
  have hnext : inMemory.after [.submit letterRequest, .submit letterAnswer] = next := by
    have hcall := Call.next_submit letterAnswer (inMemory.after [.submit letterRequest])
    rwa [hsubmit] at hcall
  rw [← hclosed, ← hnext]
  exact (closed_requests_only_grow [.submit letterRequest, .submit letterAnswer]).2.2
    [.submit letterDraft] "run"

end Ledger

end RunLedger
