/-
  Proofs/Ledger/LastRecord.lean --- events that come last in their runs.

  WHAT THIS FILE IS FOR.  Events are read by their dates, which may be any, so an
  event that is recorded now may be read early.  One that is dated behind its run is
  simpler: where the run stands decides alone whether it is taken, the store does not
  mark it, and it is read last.
-/
import RunLedger.Proofs.Ledger.Acceptance

set_option autoImplicit false

namespace RunLedger

namespace MemoryStore

variable {s t : MemoryStore} {r : Record}

/-- An event that is trimmed, has no problems and passes the gate is accepted when its identifier is
new in its run. -/
theorem exists_accepts {store : MemoryStore} {event : Event} (hs : store.Sound)
    (hnormal : event.normalized = event) (hproblems : event.problems = [])
    (hgated : Gate.violations event (store.readOrder event.runId) = [])
    (hfresh : ∀ r ∈ store.readOrder event.runId, r.eventId ≠ event.id) :
    ∃ r next, r.event = event ∧ store.Accepts r next := by
  obtain ⟨⟨log, hlog⟩, -⟩ := hs
  have hunused : event.normalized.id ∉ (store.run event.normalized.runId).ids := by
    rw [hnormal]
    intro hmem
    obtain ⟨r, hr, hrun, hid⟩ := (hlog.ids _ _).mp hmem
    exact hfresh r (hlog.mem_readOrder.mpr ⟨hr, hrun⟩) hid
  obtain ⟨r, next, happend⟩ : ∃ r next, store.append event = (.ok r, next) :=
    ⟨_, _, append_eq_ok_iff.mpr ⟨hunused, rfl, rfl⟩⟩
  have hevent : r.event = event := (recorded happend).1.trans hnormal
  have hrun : r.runId = event.runId := congrArg Event.runId hevent
  exact ⟨r, next, hevent, hevent ▸ hproblems, hrun ▸ hevent ▸ hgated, hevent ▸ happend⟩

/-- The record `r`, with which the store `s` becomes `t`, comes last in its run: it is later than
all that the run held, is not marked as going back in time, and is read behind all of it. -/
structure ComesLast (s : MemoryStore) (r : Record) (t : MemoryStore) : Prop where
  accepted : s.Accepts r t
  later : ∀ x ∈ s.readOrder r.runId, x.timestamp < r.timestamp
  unmarked : r.integrityWarning = false
  read : t.readOrder r.runId = s.readOrder r.runId ++ [r]

/-- A record is marked exactly if the run holds a later one when it is taken. -/
theorem Accepts.integrityWarning_iff (h : s.Accepts r t) (hs : s.Sound) :
    r.integrityWarning = true ↔ ∃ x ∈ s.readOrder r.runId, r.timestamp < x.timestamp := by
  obtain ⟨⟨log, hlog⟩, -⟩ := hs
  obtain ⟨-, hr, -⟩ := append_eq_ok_iff.mp h.appended
  have hnormal : r.event.normalized = r.event := (recorded h.appended).1.symm
  rw [hnormal] at hr
  have hhead : (s.run r.event.runId).head =
      RunTip.ofRecords (log.filter fun x => x.runId == r.event.runId) := hlog.head _
  have hmark : r.integrityWarning =
      (RunTip.ofRecords (log.filter fun x => x.runId == r.event.runId)).isLaterThan
        r.timestamp := by
    rw [← hhead]
    exact congrArg Record.integrityWarning hr
  rw [hmark, RunTip.isLaterThan_ofRecords_iff]
  simp only [hlog.mem_readOrder, List.mem_filter, beq_iff_eq, Record.runId]

/-- A record that is later than its run comes last in it. -/
theorem Accepts.comesLast (h : s.Accepts r t) (hs : s.Sound)
    (hlater : ∀ x ∈ s.readOrder r.runId, x.timestamp < r.timestamp) : s.ComesLast r t := by
  refine ⟨h, hlater, ?_, h.readOrder_of_last hs fun x hx => le_of_lt (hlater x hx)⟩
  rw [Bool.eq_false_iff, ne_eq, h.integrityWarning_iff hs]
  rintro ⟨x, hx, hback⟩
  exact lt_asymm hback (hlater x hx)

/-- Where the run stands with a record that comes last is one line of the diagram on. -/
theorem ComesLast.exists_moves (h : s.ComesLast r t) :
    ∃ p q, RunState.ofRecords (s.readOrder r.runId) = .ok p ∧ p.Moves r.event q ∧
      RunState.ofRecords (t.readOrder r.runId) = .ok q := by
  obtain ⟨p, q, hp, -, hmoves⟩ := (Gate.violations_eq_nil_iff_of_last
    fun x hx => le_of_lt (h.later x hx)).mp h.accepted.gated
  refine ⟨p, q, hp, hmoves, ?_⟩
  rw [h.read, RunState.ofRecords, List.map_append]
  exact RunState.steps_concat_eq_ok_iff.mpr ⟨p, hp, hmoves⟩

theorem ComesLast.state {p q : RunState} (h : s.ComesLast r t)
    (hstate : RunState.ofRecords (s.readOrder r.runId) = .ok p) (hmoves : p.Moves r.event q) :
    RunState.ofRecords (t.readOrder r.runId) = .ok q := by
  obtain ⟨p', q', hp', hmoves', hq'⟩ := h.exists_moves
  obtain rfl : p' = p := Except.ok.inj (hp'.symm.trans hstate)
  have hstep := RunState.step_eq_ok_iff.mpr hmoves'
  rw [RunState.step_eq_ok_iff.mpr hmoves] at hstep
  rw [hq', Except.ok.inj hstep]

end MemoryStore

/-! ## Submitting behind a run -/

namespace MemoryStore

/-- An event with the identifier is on record in the run. -/
def Uses (store : MemoryStore) (runId eventId : String) : Prop :=
  ∃ r ∈ store.readOrder runId, r.eventId = eventId

theorem ComesLast.uses_iff {s t : MemoryStore} {r : Record} {id : String} (h : s.ComesLast r t) :
    t.Uses r.runId id ↔ s.Uses r.runId id ∨ r.eventId = id := by
  simp only [Uses, h.read, List.mem_append, List.mem_singleton, or_and_right, exists_or,
    exists_eq_left]

/-- The event has no problems, is dated behind its run, and takes the run from where it stands to
the state `q`. -/
structure GoesOnWith (store : MemoryStore) (event : Event) (q : RunState) : Prop where
  faultless : event.normalized.problems = []
  later : ∀ x ∈ store.readOrder event.normalized.runId,
    x.timestamp < event.normalized.timestamp
  moves : ∃ p, RunState.ofRecords (store.readOrder event.normalized.runId) = .ok p ∧
    Gate.kindRules event.normalized (store.readOrder event.normalized.runId) p = [] ∧
    p.Moves event.normalized q

theorem GoesOnWith.gated {store : MemoryStore} {event : Event} {q : RunState}
    (h : store.GoesOnWith event q) :
    Gate.violations event.normalized (store.readOrder event.normalized.runId) = [] := by
  obtain ⟨p, hp, hkind, hmoves⟩ := h.moves
  exact (Gate.violations_eq_nil_iff_of_last fun x hx => le_of_lt (h.later x hx)).mpr
    ⟨p, q, hp, hkind, hmoves⟩

end MemoryStore

namespace Ledger

variable {ledger : Ledger MemoryStore} {event : Event} {q : RunState}

/-- An event with which the run can go on is recorded last, unless its identifier is in use. -/
theorem exists_comesLast_of_submit (hs : ledger.store.Sound)
    (hgoes : ledger.store.GoesOnWith event q)
    (hnew : ¬ ledger.store.Uses event.normalized.runId event.normalized.id) :
    ∃ r t, submit event ledger = (.ok r, ⟨t, ledger.drawn⟩) ∧ r.event = event.normalized ∧
      ledger.store.ComesLast r t ∧
      RunState.ofRecords (t.readOrder event.normalized.runId) = .ok q := by
  obtain ⟨r, t, hevent, haccepts⟩ := MemoryStore.exists_accepts hs
    (Event.normalized_normalized event) hgoes.faultless hgoes.gated
    fun x hx hid => hnew ⟨x, hx, hid⟩
  have hrun : r.runId = event.normalized.runId := congrArg Event.runId hevent
  have hlast : ledger.store.ComesLast r t := by
    refine haccepts.comesLast hs ?_
    rw [hrun, Record.timestamp, hevent]
    exact hgoes.later
  obtain ⟨p, hp, -, hmoves⟩ := hgoes.moves
  refine ⟨r, t, submit_eq_ok_iff.mpr ⟨hevent, haccepts, rfl⟩, hevent, hlast, ?_⟩
  rw [← hrun] at hp ⊢
  rw [← hevent] at hmoves
  exact hlast.state hp hmoves

/-- An event with which the run can go on is refused for its identifier alone. -/
theorem submit_of_uses (hs : ledger.store.Sound) (hgoes : ledger.store.GoesOnWith event q)
    (hused : ledger.store.Uses event.normalized.runId event.normalized.id) :
    submit event ledger =
      (.error (.store (.duplicateEvent event.normalized.id event.normalized.runId)), ledger) := by
  obtain ⟨⟨log, hlog⟩, -⟩ := hs
  obtain ⟨x, hx, hid⟩ := hused
  obtain ⟨hmem, hrun⟩ := hlog.mem_readOrder.mp hx
  have hids : event.normalized.id ∈ (ledger.store.run event.normalized.runId).ids :=
    (hlog.ids _ _).mpr ⟨x, hmem, hrun, hid⟩
  have happend : (EventStore.append event.normalized : StoreM MemoryStore Record) ledger.store =
      (.error (.duplicateEvent event.normalized.id event.normalized.runId), ledger.store) := by
    show ledger.store.append event.normalized = _
    unfold MemoryStore.append
    simp only [Event.normalized_normalized, List.contains_eq_mem, decide_eq_true_eq]
    rw [if_pos hids]
  rw [submit_apply, hgoes.faultless]
  dsimp only
  rw [hgoes.gated]
  dsimp only
  unfold call
  rw [happend]

end Ledger

end RunLedger
