/-
  Proofs/Approval/WaitingList.lean --- the list of the requests that wait.

  WHAT THIS FILE IS FOR.  The list of the requests that wait for an answer is made
  anew from all records: the runs are taken from the listing of all of them, and
  each run is asked where it stands.  Here it is shown what the list is on a sound
  store: it always comes back, it has one entry for every run that waits and none for
  any other, and the entries stand in the order of their dates.
-/
import Mathlib.Data.Prod.Lex
import RunLedger.Approval.Overview
import RunLedger.Proofs.Ledger.Answerable
import RunLedger.Proofs.Store.Check

set_option autoImplicit false

namespace RunLedger

namespace MemoryStore

variable {store : MemoryStore} {runId : String} {request : OpenRequest} {target : Record}

/-! ## Runs that wait -/

/-- The run waits for an answer to the request, which `target` has put on record. -/
structure WaitsOn (store : MemoryStore) (runId : String) (request : OpenRequest)
    (target : Record) : Prop where
  paused : RunState.ofRecords (store.readOrder runId) = .ok ⟨.paused, some request⟩
  mem : target ∈ store.readOrder runId
  named : target.eventId = request.eventId

/-- Two records of a run with one identifier are the same. -/
theorem Sound.eq_of_eventId (hs : store.Sound) {x y : Record} (hx : x ∈ store.readOrder runId)
    (hy : y ∈ store.readOrder runId) (hid : x.eventId = y.eventId) : x = y := by
  obtain ⟨⟨log, hlog⟩, -⟩ := hs
  obtain ⟨hxlog, hxrun⟩ := hlog.mem_readOrder.mp hx
  obtain ⟨hylog, hyrun⟩ := hlog.mem_readOrder.mp hy
  exact hlog.eq_of_eventId hxlog hylog (hxrun.trans hyrun.symm) hid

theorem exists_waitsOn (hpaused : RunState.ofRecords (store.readOrder runId) =
    .ok ⟨.paused, some request⟩) :
    ∃ target, store.WaitsOn runId request target ∧ target.event.isRequest = true := by
  rcases RunState.exists_of_pending hpaused rfl with hstart | ⟨event, hmem, hasks, rfl⟩
  · cases hstart
  · obtain ⟨target, htarget, rfl⟩ := List.mem_map.mp hmem
    exact ⟨target, ⟨hpaused, htarget, rfl⟩, hasks⟩

namespace WaitsOn

theorem runId_eq (h : store.WaitsOn runId request target) (hs : store.Sound) :
    target.runId = runId := by
  obtain ⟨⟨log, hlog⟩, -⟩ := hs
  exact (hlog.mem_readOrder.mp h.mem).2

theorem mem_records (h : store.WaitsOn runId request target) (hs : store.Sound) :
    target ∈ store.records := by
  obtain ⟨⟨log, hlog⟩, -⟩ := hs
  exact hlog.mem_records.mpr (hlog.mem_readOrder.mp h.mem).1

/-- A run waits for one request only. -/
theorem unique {request' : OpenRequest} {target' : Record}
    (h : store.WaitsOn runId request target) (hs : store.Sound)
    (h' : store.WaitsOn runId request' target') : request' = request ∧ target' = target := by
  obtain rfl : request' = request := by
    have hstate := h'.paused.symm.trans h.paused
    simpa using hstate
  exact ⟨rfl, hs.eq_of_eventId h'.mem h.mem (h'.named.trans h.named.symm)⟩

theorem asks (h : store.WaitsOn runId request target) (hs : store.Sound) :
    target.event.isRequest = true := by
  obtain ⟨asker, hwaits, hasks⟩ := exists_waitsOn h.paused
  obtain ⟨-, rfl⟩ := h.unique hs hwaits
  exact hasks

theorem waitsFor (h : store.WaitsOn runId request target) (hs : store.Sound)
    (hunique : ¬ store.UsedElsewhere runId request.eventId) :
    store.WaitsFor runId request target :=
  ⟨h.paused, h.mem, h.asks hs, h.named, hunique⟩

end WaitsOn

theorem WaitsFor.waitsOn (h : store.WaitsFor runId request target) :
    store.WaitsOn runId request target :=
  ⟨h.paused, h.mem, h.named⟩

end MemoryStore

/-! ## One run -/

/-- The entry for a request that a run waits on, which `target` has put on record. -/
def WaitingRequest.ofOpen (runId : String) (request : OpenRequest) (target : Record) :
    WaitingRequest where
  eventId := request.eventId
  decisionId := target.event.decision?
  runId := runId
  requestedAt := request.requestedAt
  requestedBy := request.requestedBy
  title := target.event.title
  details := target.event.details
  reason := request.reason
  riskLevel := target.event.riskLevel

/-- A run has an entry only while it is paused, and then the entry is the one for its request. -/
theorem WaitingRequest.ofRun?_eq_some_iff {runId : String} {records : List Record}
    {state : RunState} {w : WaitingRequest} :
    WaitingRequest.ofRun? runId records state = some w ↔
      ∃ request target, state = ⟨.paused, some request⟩ ∧
        records.find? (fun r => r.eventId == request.eventId) = some target ∧
        w = .ofOpen runId request target := by
  have hpaused (request : OpenRequest) :
      WaitingRequest.ofRun? runId records ⟨.paused, some request⟩ =
        (records.find? fun r => r.eventId == request.eventId).map
          (WaitingRequest.ofOpen runId request) := by
    show (records.find? fun r => r.eventId == request.eventId).bind _ = _
    cases records.find? fun r => r.eventId == request.eventId <;> rfl
  constructor
  · intro h
    obtain ⟨status, pending⟩ := state
    cases pending with
    | none => cases h
    | some request =>
      cases status with
      | paused =>
        rw [hpaused, Option.map_eq_some_iff] at h
        obtain ⟨target, hfound, rfl⟩ := h
        exact ⟨request, target, rfl, hfound, rfl⟩
      | _ => cases h
  · rintro ⟨request, target, rfl, hfound, rfl⟩
    rw [hpaused, hfound]
    rfl

namespace MemoryStore

variable {store : MemoryStore} {runId : String}

/-- The entry for a run in the list of the requests that wait, if it has one. -/
def waiting? (store : MemoryStore) (runId : String) : Option WaitingRequest :=
  match RunState.ofRecords (store.readOrder runId) with
  | .ok state => WaitingRequest.ofRun? runId (store.readOrder runId) state
  | .error _ => none

/-- A run has an entry exactly while it waits. -/
theorem waiting?_eq_some_iff (hs : store.Sound) {w : WaitingRequest} :
    store.waiting? runId = some w ↔
      ∃ request target, store.WaitsOn runId request target ∧
        w = .ofOpen runId request target := by
  unfold waiting?
  constructor
  · intro h
    cases hstate : RunState.ofRecords (store.readOrder runId) with
    | error conflict =>
      rw [hstate] at h
      cases h
    | ok state =>
      rw [hstate] at h
      obtain ⟨request, target, rfl, hfound, rfl⟩ := WaitingRequest.ofRun?_eq_some_iff.mp h
      have hnamed : target.eventId = request.eventId := by simpa using List.find?_some hfound
      exact ⟨request, target, ⟨hstate, List.mem_of_find?_eq_some hfound, hnamed⟩, rfl⟩
  · rintro ⟨request, target, hwaits, rfl⟩
    obtain ⟨found, hfound⟩ : ∃ found, (store.readOrder runId).find?
        (fun r => r.eventId == request.eventId) = some found := by
      rw [← Option.isSome_iff_exists, List.find?_isSome]
      exact ⟨target, hwaits.mem, by simp [hwaits.named]⟩
    obtain rfl : found = target := by
      refine hs.eq_of_eventId (List.mem_of_find?_eq_some hfound) hwaits.mem ?_
      rw [hwaits.named]
      simpa using List.find?_some hfound
    rw [hwaits.paused]
    exact WaitingRequest.ofRun?_eq_some_iff.mpr ⟨request, found, rfl, hfound, rfl⟩

end MemoryStore

/-! ## All runs -/

/-- Where one item of a list alone has something of a kind, the list has one thing of that kind. -/
theorem filter_filterMap_eq_singleton {α β : Type} {f : α → Option β} {kind : β → Bool}
    {items : List α} {a : α} {b : β} (hnodup : items.Nodup) (ha : a ∈ items) (hb : f a = some b)
    (hkind : kind b = true)
    (halone : ∀ x ∈ items, ∀ y, f x = some y → kind y = true → x = a) :
    (items.filterMap f).filter kind = [b] := by
  obtain ⟨first, rest, rfl⟩ := List.append_of_mem ha
  obtain ⟨-, hrest, hapart⟩ := List.nodup_append.mp hnodup
  have hnone {xs : List α} (hxs : ∀ x ∈ xs, x ∈ first ++ a :: rest ∧ x ≠ a) :
      (xs.filterMap f).filter kind = [] := by
    refine List.filter_eq_nil_iff.mpr fun y hy hyes => ?_
    obtain ⟨x, hx, hfx⟩ := List.mem_filterMap.mp hy
    exact (hxs x hx).2 (halone x (hxs x hx).1 y hfx hyes)
  have hfirst : (first.filterMap f).filter kind = [] :=
    hnone fun x hx => ⟨by simp [hx], fun heq => hapart x hx a (by simp) heq⟩
  have hafter : (rest.filterMap f).filter kind = [] :=
    hnone fun x hx => ⟨by simp [hx], fun heq => (List.nodup_cons.mp hrest).1 (heq ▸ hx)⟩
  rw [List.filterMap_append, List.filterMap_cons_some hb, List.filter_append, hfirst,
    List.filter_cons_of_pos hkind, hafter, List.nil_append]

namespace Ledger

variable {ledger : Ledger MemoryStore}

theorem waitingIn_apply (hs : ledger.store.Sound) (runIds : List String) :
    waitingIn runIds ledger = (.ok (runIds.filterMap ledger.store.waiting?), ledger) := by
  induction runIds with
  | nil => rfl
  | cons runId rest ih =>
    obtain ⟨state, hstate⟩ := (hs.2 runId).exists_state
    have hstateOf : stateOf (ledger.store.readOrder runId) ledger = (.ok state, ledger) := by
      rw [stateOf, hstate]
      rfl
    have hentry : ledger.store.waiting? runId =
        WaitingRequest.ofRun? runId (ledger.store.readOrder runId) state := by
      rw [MemoryStore.waiting?, hstate]
    rw [waitingIn, bind_apply, readRun_apply]
    dsimp only
    rw [bind_apply, hstateOf]
    dsimp only
    rw [bind_apply, ih, List.filterMap_cons, hentry]
    cases WaitingRequest.ofRun? runId (ledger.store.readOrder runId) state <;> rfl

/-- The list of the requests that wait comes back, with the entries of all runs on record. -/
theorem waitingRequests_apply (hs : ledger.store.Sound) :
    waitingRequests ledger =
      (.ok (((runIdsOf (Record.sortForReading ledger.store.records)).filterMap
        ledger.store.waiting?).mergeSort WaitingRequest.listedBefore), ledger) := by
  have hall : call (EventStore.readAll : StoreM MemoryStore _) ledger =
      (.ok (Record.sortForReading ledger.store.records), ledger) := rfl
  rw [waitingRequests, bind_apply, hall]
  dsimp only
  rw [bind_apply, waitingIn_apply hs]
  rfl

theorem mem_runIdsOf_of_waitsOn (hs : ledger.store.Sound) {runId : String} {request : OpenRequest}
    {target : Record} (hwaits : ledger.store.WaitsOn runId request target) :
    runId ∈ runIdsOf (Record.sortForReading ledger.store.records) := by
  have hrun := hwaits.runId_eq hs
  obtain ⟨⟨log, hlog⟩, -⟩ := hs
  refine mem_runIdsOf.mpr ⟨target, ?_, hrun⟩
  rw [Record.mem_sortForReading, hlog.mem_records]
  exact (hlog.mem_readOrder.mp hwaits.mem).1

/-- The list has the entries of the runs that wait and no others. -/
theorem mem_waitingRequests (hs : ledger.store.Sound) {waiting : List WaitingRequest}
    (h : (waitingRequests ledger).1 = .ok waiting) {w : WaitingRequest} :
    w ∈ waiting ↔ ∃ runId request target, ledger.store.WaitsOn runId request target ∧
      w = .ofOpen runId request target := by
  rw [waitingRequests_apply hs] at h
  obtain rfl := Except.ok.inj h
  rw [List.mem_mergeSort, List.mem_filterMap]
  constructor
  · rintro ⟨runId, -, hentry⟩
    exact ⟨runId, (MemoryStore.waiting?_eq_some_iff hs).mp hentry⟩
  · rintro ⟨runId, request, target, hwaits, rfl⟩
    exact ⟨runId, mem_runIdsOf_of_waitsOn hs hwaits,
      (MemoryStore.waiting?_eq_some_iff hs).mpr ⟨request, target, hwaits, rfl⟩⟩

/-- Where one run alone waits for a request of a kind, the list has one entry of that kind. -/
theorem filter_waitingRequests (hs : ledger.store.Sound) {waiting : List WaitingRequest}
    (h : (waitingRequests ledger).1 = .ok waiting) {kind : WaitingRequest → Bool}
    {runId : String} {request : OpenRequest} {target : Record}
    (hwaits : ledger.store.WaitsOn runId request target)
    (hkind : kind (.ofOpen runId request target) = true)
    (halone : ∀ runId' request' target', ledger.store.WaitsOn runId' request' target' →
      kind (.ofOpen runId' request' target') = true → runId' = runId) :
    waiting.filter kind = [.ofOpen runId request target] := by
  rw [waitingRequests_apply hs] at h
  obtain rfl := Except.ok.inj h
  refine List.perm_singleton.mp (((List.mergeSort_perm _ _).filter kind).trans (.of_eq ?_))
  refine filter_filterMap_eq_singleton ((runIdsOf_ascending _).imp fun hlt => ne_of_lt hlt)
    (mem_runIdsOf_of_waitsOn hs hwaits)
    ((MemoryStore.waiting?_eq_some_iff hs).mpr ⟨request, target, hwaits, rfl⟩) hkind ?_
  intro runId' _ w hentry hw
  obtain ⟨request', target', hwaits', rfl⟩ := (MemoryStore.waiting?_eq_some_iff hs).mp hentry
  exact halone runId' request' target' hwaits' hw

end Ledger

/-! ## The order of the list -/

namespace WaitingRequest

/-- By what requests are listed: by time, and those of one time by the identifiers of their
events. -/
def listKey (w : WaitingRequest) : Time.Instant ×ₗ String := toLex (w.requestedAt, w.eventId)

theorem listedBefore_iff_listKey {a b : WaitingRequest} :
    a.listedBefore b = true ↔ a.listKey ≤ b.listKey := by
  rw [listKey, listKey, Prod.Lex.toLex_le_toLex]
  simp [listedBefore]

theorem pairwise_listKey (waiting : List WaitingRequest) :
    (waiting.mergeSort listedBefore).Pairwise fun a b => a.listKey ≤ b.listKey := by
  refine pairwise_mergeSort_of_key ?_ waiting
  exact listedBefore_iff_listKey

end WaitingRequest

namespace Ledger

/-- Whatever has been asked of a fresh ledger, in whatever order, the list of the requests that wait
comes back, and changes nothing:

* for a run that is paused it has one entry, made from the request that the run waits on and from
  the one event of the run that has the identifier of this request;
* for any other run it has none;
* its entries stand in the order of their dates, and those of one date in the order of the
  identifiers of their events. -/
theorem waiting_list_is_exact (operations : List (Operation MemoryStore)) :
    ∃ waiting, waitingRequests (inMemory.after operations) =
        (.ok waiting, inMemory.after operations) ∧
      (∀ runId, ∃ state,
        RunState.ofRecords ((inMemory.after operations).store.readOrder runId) = .ok state ∧
        (state.status = .paused → ∃ request asked, state.pending = some request ∧
          (∀ x, x ∈ (inMemory.after operations).store.readOrder runId ∧
            x.eventId = request.eventId ↔ x = asked) ∧
          waiting.filter (fun w => w.runId == runId) = [.ofOpen runId request asked]) ∧
        (state.status ≠ .paused → waiting.filter (fun w => w.runId == runId) = [])) ∧
      waiting.Pairwise fun a b => a.listKey ≤ b.listKey := by
  have hs := sound_after operations
  generalize inMemory.after operations = ledger at *
  have hlist := waitingRequests_apply hs
  have hcomes := congrArg Prod.fst hlist
  refine ⟨_, hlist, fun runId => ?_, WaitingRequest.pairwise_listKey _⟩
  obtain ⟨⟨status, pending⟩, hstate⟩ := (hs.2 runId).exists_state
  refine ⟨_, hstate, ?_, ?_⟩
  · rintro rfl
    have hcoherent := RunState.coherent_of_steps RunState.coherent_start hstate
    obtain ⟨request, rfl⟩ := Option.isSome_iff_exists.mp (hcoherent.mp rfl)
    obtain ⟨asked, hwaits, -⟩ := MemoryStore.exists_waitsOn hstate
    refine ⟨request, asked, rfl, fun x => ⟨?_, ?_⟩, ?_⟩
    · rintro ⟨hx, hid⟩
      exact hs.eq_of_eventId hx hwaits.mem (hid.trans hwaits.named.symm)
    · rintro rfl
      exact ⟨hwaits.mem, hwaits.named⟩
    · exact filter_waitingRequests hs hcomes hwaits (beq_self_eq_true runId)
        fun runId' _ _ _ hrun => beq_iff_eq.mp hrun
  · intro hgoes
    refine List.filter_eq_nil_iff.mpr fun w hw hrun => ?_
    obtain ⟨runId', request, asked, hwaits, rfl⟩ := (mem_waitingRequests hs hcomes).mp hw
    obtain rfl : runId' = runId := beq_iff_eq.mp hrun
    have hpaused := hstate.symm.trans hwaits.paused
    cases hpaused
    exact hgoes rfl

/-- A request alone in its run is listed. -/
theorem letter_is_listed : ∃ waiting asked,
    waitingRequests (inMemory.after [.submit letterRequest]) =
      (.ok waiting, inMemory.after [.submit letterRequest]) ∧
    waiting.filter (fun w => w.runId == "run") =
      [.ofOpen "run" letterRequest.normalized.toOpenRequest asked] := by
  obtain ⟨waiting, hlist, hruns, -⟩ := waiting_list_is_exact [.submit letterRequest]
  obtain ⟨state, hstate, hpaused, -⟩ := hruns "run"
  have hasked : RunState.ofRecords ((inMemory.after [.submit letterRequest]).store.readOrder
      "run") = .ok ⟨.paused, some letterRequest.normalized.toOpenRequest⟩ := by decide +kernel
  cases hstate.symm.trans hasked
  obtain ⟨request, asked, hrequest, -, hentry⟩ := hpaused rfl
  cases hrequest
  exact ⟨waiting, asked, hlist, hentry⟩

end Ledger

end RunLedger
