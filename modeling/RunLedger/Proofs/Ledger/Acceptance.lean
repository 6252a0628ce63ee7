/-
  Proofs/Ledger/Acceptance.lean --- what a ledger in memory accepts.

  WHAT THIS FILE IS FOR.  All that a request does to a store in memory is done by
  accepting events, one after the other: `MemoryStore.Accepts` says what it takes
  for one to be accepted and what becomes of the store.  A store that has grown
  in this way is sound, which is what `MemoryStore.Sound` keeps of its past.
-/
import RunLedger.Proofs.Ledger.Operation
import RunLedger.Proofs.Run.GatedHistory
import RunLedger.Proofs.Store.MemoryLog

set_option autoImplicit false

namespace RunLedger

namespace MemoryStore

/-- The store `s` takes the record `r`, whose event has no problems and passes the gate, and
becomes `t`. -/
structure Accepts (s : MemoryStore) (r : Record) (t : MemoryStore) : Prop where
  faultless : r.event.problems = []
  gated : Gate.violations r.event (s.readOrder r.runId) = []
  appended : s.append r.event = (.ok r, t)

end MemoryStore

/-! ## Submissions -/

namespace Ledger

variable {event : Event} {ledger next : Ledger MemoryStore} {r : Record}

theorem readRun_apply (runId : String) (ledger : Ledger MemoryStore) :
    call (EventStore.readRun runId) ledger = (.ok (ledger.store.readOrder runId), ledger) := rfl

theorem submit_apply (event : Event) (ledger : Ledger MemoryStore) :
    submit event ledger =
      match event.normalized.problems with
      | [] =>
        match Gate.violations event.normalized (ledger.store.readOrder event.normalized.runId) with
        | [] => call (EventStore.append event.normalized) ledger
        | violations => (.error (.rules violations), ledger)
      | problems => (.error (.store (.schemaValidation problems)), ledger) := by
  unfold submit
  cases event.normalized.problems with
  | cons problem rest => rfl
  | nil =>
    dsimp only
    rw [bind_apply, readRun_apply]
    dsimp only
    cases Gate.violations event.normalized (ledger.store.readOrder event.normalized.runId) with
    | nil => rfl
    | cons violation rest => rfl

/-- An event is recorded exactly if the store accepts it, trimmed, and nothing else changes. -/
theorem submit_eq_ok_iff :
    submit event ledger = (.ok r, next) ↔
      r.event = event.normalized ∧ ledger.store.Accepts r next.store ∧
        next.drawn = ledger.drawn := by
  rw [submit_apply]
  constructor
  · intro h
    split at h
    · rename_i hfaultless
      split at h
      · rename_i hgated
        unfold call at h
        split at h
        · rename_i store happend
          cases h
          have happend' : ledger.store.append event.normalized = (.ok r, store) := happend
          have hevent : r.event = event.normalized := by
            rw [(MemoryStore.recorded happend').1, Event.normalized_normalized]
          have hrun : r.runId = event.normalized.runId := congrArg Event.runId hevent
          refine ⟨hevent, ⟨?_, ?_, ?_⟩, rfl⟩
          · rw [hevent, hfaultless]
          · rw [hevent, hrun, hgated]
          · rw [hevent, happend']
        · cases (Prod.mk.inj h).1
      · cases (Prod.mk.inj h).1
    · cases (Prod.mk.inj h).1
  · rintro ⟨hevent, ⟨hfaultless, hgated, happend⟩, hdrawn⟩
    have hrun : r.runId = event.normalized.runId := congrArg Event.runId hevent
    rw [hevent] at hfaultless hgated happend
    rw [hrun] at hgated
    rw [hfaultless, hgated]
    dsimp only
    have hcall : (EventStore.append event.normalized : StoreM MemoryStore Record) ledger.store =
        (.ok r, next.store) := happend
    unfold call
    rw [hcall, ← hdrawn]

/-- A submission that is refused leaves the ledger as it is. -/
theorem submit_error {error : RequestError} (h : submit event ledger = (.error error, next)) :
    next = ledger := by
  rw [submit_apply] at h
  split at h
  · split at h
    · unfold call at h
      split at h
      · cases (Prod.mk.inj h).1
      · rename_i happend
        cases h
        rw [MemoryStore.append_error happend]
    · exact (Prod.mk.inj h).2.symm
  · exact (Prod.mk.inj h).2.symm

/-- While the records of its run are in read order already, an event that has no problems and
passes the gate is handed to the store. -/
theorem next_submit_of_ordered {store : MemoryStore} {drawn : Nat}
    (hordered : (store.run event.normalized.runId).records.Pairwise
      fun a b => a.readsBefore b = true)
    (hproblems : event.normalized.problems = [])
    (hgate : Gate.violations event.normalized (store.run event.normalized.runId).records = []) :
    (Call.mk ⟨store, drawn⟩ (.submit event)).next =
      ⟨(store.append event.normalized).2, drawn⟩ := by
  rw [Call.next_submit, submit_apply, hproblems]
  dsimp only
  rw [MemoryStore.readOrder_of_ordered hordered, hgate]
  dsimp only
  have hcall : (EventStore.append event.normalized : StoreM MemoryStore Record) store =
      store.append event.normalized := rfl
  unfold call
  rw [hcall]
  rcases store.append event.normalized with ⟨error | r, next⟩ <;> rfl

/-- Requests change a store in memory by letting it accept records. -/
theorem stepsOf_accepts : StepsOf MemoryStore fun s t => ∃ r, s.Accepts r t where
  readRun _ _ := .refl
  readAll _ := .refl
  submit event ledger := by
    rcases h : submit event ledger with ⟨error | r, next⟩
    · rw [submit_error h]
    · exact .single ⟨r, (submit_eq_ok_iff.mp h).2.1⟩

end Ledger

/-! ## Sound stores -/

namespace MemoryStore

/-- The store holds a log, and the history of every run is gated. -/
def Sound (store : MemoryStore) : Prop :=
  (∃ log, store.Holds log) ∧ ∀ runId, GatedHistory (store.readOrder runId)

theorem sound_empty : empty.Sound := by
  refine ⟨⟨[], holds_empty⟩, fun runId => ?_⟩
  have hnone : empty.readOrder runId = [] := List.mergeSort_nil
  rw [hnone]
  exact gatedHistory_nil

/-- A record that is accepted is read where the gate put its event, and the history of its run
with it is gated. -/
theorem Accepts.exists_place {s t : MemoryStore} {r : Record} (h : s.Accepts r t)
    (hs : s.Sound) :
    ∃ before after, s.readOrder r.runId = before ++ after ∧
      r.event.ReadsBetween before after ∧ t.readOrder r.runId = before ++ r :: after ∧
      GatedHistory (before ++ r :: after) := by
  obtain ⟨⟨log, hlog⟩, hgated⟩ := hs
  have hhistory := hgated r.runId
  obtain ⟨before, after, hsplit, hplace⟩ := r.event.exists_readsBetween hhistory.ordered
  refine ⟨before, after, hsplit, hplace, hlog.readOrder_append h.appended hsplit hplace, ?_⟩
  have hpasses := h.gated
  rw [hsplit] at hhistory hpasses
  refine hhistory.insert hplace hpasses ?_
  intro hmem
  obtain ⟨x, hx, hid⟩ := List.mem_map.mp hmem
  rw [← hsplit, hlog.mem_readOrder] at hx
  exact hlog.fresh h.appended x hx.1 hx.2 hid

/-- A record that is not earlier than any of its run is read last. -/
theorem Accepts.readOrder_of_last {s t : MemoryStore} {r : Record} (h : s.Accepts r t)
    (hs : s.Sound) (hlast : ∀ x ∈ s.readOrder r.runId, x.timestamp ≤ r.timestamp) :
    t.readOrder r.runId = s.readOrder r.runId ++ [r] := by
  obtain ⟨log, hlog⟩ := hs.1
  exact hlog.readOrder_append h.appended (List.append_nil _).symm
    (Event.ReadsBetween.of_end hlast)

/-- The states of a run around the place of a record that is accepted. -/
theorem Accepts.exists_passage {s t : MemoryStore} {r : Record} (h : s.Accepts r t)
    (hs : s.Sound) :
    ∃ before after a p q, s.readOrder r.runId = before ++ after ∧
      t.readOrder r.runId = before ++ r :: after ∧ Passage r.event before after a p q := by
  obtain ⟨before, after, hsplit, hplace, hread, -⟩ := h.exists_place hs
  obtain ⟨a, p, q, hpassage⟩ := RunLedger.exists_passage hplace (hsplit ▸ h.gated)
  exact ⟨before, after, a, p, q, hsplit, hread, hpassage⟩

/-- A sound store stays sound with the records that it accepts. -/
theorem Sound.accepts {s t : MemoryStore} {r : Record} (hs : s.Sound) (h : s.Accepts r t) :
    t.Sound := by
  obtain ⟨before, after, hsplit, hplace, hread, hhistory⟩ := h.exists_place hs
  obtain ⟨⟨log, hlog⟩, hgated⟩ := hs
  refine ⟨⟨log ++ [r], hlog.append h.appended⟩, ?_⟩
  intro runId
  by_cases hrun : runId = r.runId
  · rw [hrun, hread]
    exact hhistory
  · rw [readOrder_other h.appended hrun]
    exact hgated runId

/-- The record `r`, with which the store `s` becomes `t`, is read where the gate put its event
when it looked at the history of the run; the other runs are read as before. -/
structure ReadsInPlace (s : MemoryStore) (r : Record) (t : MemoryStore) : Prop where
  place : t.readOrder r.runId =
    (s.readOrder r.runId).take (Gate.readPosition r.event (s.readOrder r.runId)) ++
      r :: (s.readOrder r.runId).drop (Gate.readPosition r.event (s.readOrder r.runId))
  others : ∀ runId, runId ≠ r.runId → t.readOrder runId = s.readOrder runId

/-- The gate and the store agree on the place of an event. -/
theorem readsInPlace_of_accepts (s : MemoryStore) (r : Record) (t : MemoryStore)
    (hs : s.Sound) (h : s.Accepts r t) : s.ReadsInPlace r t := by
  obtain ⟨before, after, hsplit, hplace, hread, -⟩ := h.exists_place hs
  refine ⟨?_, fun runId hrun => readOrder_other h.appended hrun⟩
  rw [hread, hsplit, hplace.readPosition_eq, List.take_left', List.drop_left'] <;> rfl

theorem Sound.of_chain {s t : MemoryStore} (hs : s.Sound)
    (h : Relation.ReflTransGen (fun s t => ∃ r, s.Accepts r t) s t) : t.Sound := by
  induction h with
  | refl => exact hs
  | tail _ haccepts ih =>
    obtain ⟨r, haccepts⟩ := haccepts
    exact ih.accepts haccepts

/-- What holds of every record that a sound store accepts holds of every record of a chain. -/
theorem Sound.chain {s t : MemoryStore} {P : MemoryStore → Record → MemoryStore → Prop}
    (hs : s.Sound) (hP : ∀ s r t, s.Sound → s.Accepts r t → P s r t)
    (h : Relation.ReflTransGen (fun s t => ∃ r, s.Accepts r t) s t) :
    Relation.ReflTransGen (fun s t => ∃ r, s.Accepts r t ∧ P s r t) s t := by
  induction h with
  | refl => exact .refl
  | tail hfirst haccepts ih =>
    obtain ⟨r, haccepts⟩ := haccepts
    exact ih.tail ⟨r, haccepts, hP _ r _ (hs.of_chain hfirst) haccepts⟩

end MemoryStore

namespace Ledger

/-- Whatever is asked of a fresh ledger, in whatever order, its store is sound. -/
theorem sound_after (operations : List (Operation MemoryStore)) :
    (inMemory.after operations).store.Sound :=
  MemoryStore.sound_empty.of_chain (reflTransGen_after stepsOf_accepts inMemory operations)

/-- What holds of every record that a sound store accepts holds of every record that further
requests put on record. -/
theorem accepts_after {P : MemoryStore → Record → MemoryStore → Prop}
    (hP : ∀ s r t, s.Sound → s.Accepts r t → P s r t)
    (operations further : List (Operation MemoryStore)) :
    Relation.ReflTransGen (fun s t => ∃ r, s.Accepts r t ∧ P s r t)
      (inMemory.after operations).store (inMemory.after (operations ++ further)).store := by
  rw [after_append]
  exact (sound_after operations).chain hP
    (reflTransGen_after stepsOf_accepts (inMemory.after operations) further)

end Ledger

/-! ## A small run -/

/-- A request, five milliseconds after the start. -/
def letterRequest : Event :=
  { Event.plain "ask" "run" (Time.Instant.epoch.addMillis 5) .approvalRequested .agent
      "Send the letter?" "The letter is ready." with
    requiresApproval := true
    approval := .pending "agent" }

/-- An action at the start. -/
def letterDraft : Event :=
  Event.plain "draft" "run" .epoch .action .agent "Draft" "The letter is drafted."

/-- The answer to the request, nine milliseconds after the start. -/
def letterAnswer : Event :=
  { Event.plain "yes" "run" (Time.Instant.epoch.addMillis 9) .approvalResolved .human
      "Yes" "The letter may be sent." with
    approval := .resolved .approved "alice" (Time.Instant.epoch.addMillis 9) }

end RunLedger
