/-
  Proofs/Ledger/Replay.lean --- a ledger is the replay of its events.

  WHAT THIS FILE IS FOR.  Events reach the store by several requests, some made by
  callers and some by the library itself, and other requests are refused in
  between.  None of that is needed to get the store again: what it holds is made
  anew by submitting its events, in the order of their places, to a fresh ledger.
-/
import RunLedger.Proofs.Ledger.Isolation

set_option autoImplicit false

namespace RunLedger

namespace MemoryStore

/-- The records of all runs in the order of their places. -/
def placeOrder (store : MemoryStore) : List Record :=
  store.records.mergeSort fun a b => decide (a.sequence ≤ b.sequence)

/-- The order of places is the order in which the records were recorded. -/
theorem Holds.placeOrder_eq {store : MemoryStore} {log : List Record} (h : store.Holds log) :
    store.placeOrder = log := by
  have hsorted : store.placeOrder.Pairwise fun a b => a.sequence ≤ b.sequence :=
    pairwise_mergeSort_of_key decide_eq_true_iff store.records
  have hlog : log.Pairwise fun a b => a.sequence ≤ b.sequence := by
    rw [← List.pairwise_map (f := Record.sequence) (R := (· ≤ ·)), h.places]
    exact List.pairwise_le_range'
  have hperm : store.placeOrder.Perm log := (List.mergeSort_perm _ _).trans h.all
  refine hperm.eq_of_pairwise ?_ hsorted hlog
  intro a b ha hb hab hba
  exact List.inj_on_of_nodup_map h.places_nodup (hperm.mem_iff.mp ha) hb (Nat.le_antisymm hab hba)

/-- The events of the store, to be submitted in the order of their places. -/
def resubmissions (store : MemoryStore) : List (Operation MemoryStore) :=
  store.placeOrder.map fun r => .submit r.event

/-- A fresh ledger to which the events of the store are submitted accepts each of them as the record
that it is in the store, and ends with this store. -/
structure IsReplay (store : MemoryStore) : Prop where
  answers : (Ledger.inMemory.calls store.resubmissions).map Call.answer =
    store.placeOrder.map fun r => .ok (.recorded r)
  store_eq : (Ledger.inMemory.after store.resubmissions).store = store

theorem isReplay_empty : empty.IsReplay := by
  have hnone : empty.placeOrder = [] := holds_empty.placeOrder_eq
  constructor <;> simp only [resubmissions, hnone] <;> rfl

/-- What a store accepts next is accepted by the replay of the store as well. -/
theorem IsReplay.accepts {s t : MemoryStore} {r : Record} (h : s.IsReplay) (hs : s.Sound)
    (haccepts : s.Accepts r t) : t.IsReplay := by
  obtain ⟨log, hlog⟩ := hs.1
  have hgrown : t.placeOrder = s.placeOrder ++ [r] := by
    rw [(hlog.append haccepts.appended).placeOrder_eq, hlog.placeOrder_eq]
  have hresubmitted : t.resubmissions = s.resubmissions ++ [.submit r.event] := by
    rw [resubmissions, hgrown, List.map_append, List.map_singleton, resubmissions]
  -- The event is on record, so that it is normalized and nothing about it changes.
  have hnormal : r.event = r.event.normalized := (recorded haccepts.appended).1
  have hsubmit : Ledger.submit r.event (Ledger.inMemory.after s.resubmissions) =
      (.ok r, ⟨t, (Ledger.inMemory.after s.resubmissions).drawn⟩) := by
    refine Ledger.submit_eq_ok_iff.mpr ⟨hnormal, ?_, rfl⟩
    rw [h.store_eq]
    exact haccepts
  constructor
  · have hanswer : (Call.mk (Ledger.inMemory.after s.resubmissions) (.submit r.event)).answer =
        .ok (.recorded r) := by
      rw [Call.answer, Operation.perform, bind_apply, hsubmit]
      rfl
    rw [hresubmitted, Ledger.calls_append, List.map_append, h.answers, hgrown, List.map_append]
    exact congrArg (_ ++ [·]) hanswer
  · rw [hresubmitted, Ledger.after_append]
    show (Call.mk (Ledger.inMemory.after s.resubmissions) (.submit r.event)).next.store = t
    rw [Call.next_submit, hsubmit]

theorem IsReplay.of_chain {s t : MemoryStore} (h : s.IsReplay) (hs : s.Sound)
    (hchain : Relation.ReflTransGen (fun s t => ∃ r, s.Accepts r t) s t) : t.IsReplay := by
  induction hchain with
  | refl => exact h
  | tail hfirst haccepts ih =>
    obtain ⟨r, haccepts⟩ := haccepts
    exact ih.accepts (hs.of_chain hfirst) haccepts

end MemoryStore

namespace Ledger

/-- Whatever has been asked of a fresh ledger, in whatever order and with whatever refused in
between: when the events on record are submitted to a fresh ledger in the order of their places, each
of them is accepted and becomes the same record, with its place, mark and digests; the ledger ends
with the same store, and every run stands where it stood. -/
theorem replay_reproduces_ledger (operations : List (Operation MemoryStore)) :
    (inMemory.calls (inMemory.after operations).store.resubmissions).map Call.answer =
        (inMemory.after operations).store.placeOrder.map (fun r => .ok (.recorded r)) ∧
      (inMemory.after (inMemory.after operations).store.resubmissions).store =
        (inMemory.after operations).store ∧
      ∀ runId, (runState runId
          (inMemory.after (inMemory.after operations).store.resubmissions)).1 =
        (runState runId (inMemory.after operations)).1 := by
  have hreplay : (inMemory.after operations).store.IsReplay :=
    MemoryStore.isReplay_empty.of_chain MemoryStore.sound_empty
      (reflTransGen_after stepsOf_accepts inMemory operations)
  refine ⟨hreplay.answers, hreplay.store_eq, fun runId => ?_⟩
  apply runState_fst_of_runAlike
  rw [hreplay.store_eq]
  exact .refl _ _

/-- Submissions to two runs, of which the third is the first once more. -/
def draftTwice : List (Operation MemoryStore) :=
  [.submit letterDraft, .submit { letterDraft with runId := "side" }, .submit letterDraft,
    .submit letterRequest]

/-- One submission is refused, and three are enough to get the ledger again. -/
theorem draft_twice_is_replayed :
    (inMemory.calls draftTwice).map (fun call => call.answer.isOk) = [true, true, false, true] ∧
      (inMemory.after draftTwice).store.resubmissions.length = 3 ∧
      (inMemory.after (inMemory.after draftTwice).store.resubmissions).store =
        (inMemory.after draftTwice).store := by
  obtain ⟨-, hstore, -⟩ := replay_reproduces_ledger draftTwice
  refine ⟨by decide +kernel, ?_, hstore⟩
  rw [MemoryStore.resubmissions, List.length_map, MemoryStore.placeOrder, List.length_mergeSort]
  decide +kernel

end Ledger

end RunLedger
