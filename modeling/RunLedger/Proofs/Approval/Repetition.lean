/-
  Proofs/Approval/Repetition.lean --- what is said about a policy decision that is asked about again.

  WHAT THIS FILE IS FOR.  Who asks about a policy decision a second time is refused
  and told whether the first request is still open.  What is told is read off the last
  event on record that asks or answers for the policy decision, in whatever run.  It
  is not asked what the runs wait for.  Here it is shown what the answer says, and
  when it says what it seems to say: the policy decision has to be asked about in one
  run only, and its requests have to be closed by answers that belong to it.
-/
import RunLedger.Proofs.Approval.ByDecision
import RunLedger.Proofs.Approval.Registration

set_option autoImplicit false

namespace RunLedger

open RunLedger.Text (trim)

namespace RunState

/-! ## Behind a request -/

/-- An open request stays open behind events that neither end the run nor answer. -/
theorem pending_of_steps {p q : RunState} {events : List Event} {request : OpenRequest}
    (h : p.steps events = .ok q) (hp : p.pending = some request)
    (hkeeps : ∀ event ∈ events, event.ending? = none ∧ event.isAnswer = false) :
    q.pending = some request := by
  induction events generalizing p with
  | nil =>
    cases h
    exact hp
  | cons event rest ih =>
    obtain ⟨m, hmoves, hrest⟩ := steps_cons_eq_ok_iff.mp h
    obtain ⟨hgoes, hanswer⟩ := hkeeps event List.mem_cons_self
    refine ih hrest ?_ fun event hevent => hkeeps event (List.mem_cons_of_mem _ hevent)
    cases hmoves with
    | ends _ hmarks => simp [hgoes] at hmarks
    | answers _ _ hyes => simp [hanswer] at hyes
    | asks _ _ _ _ hfree => simp [hp] at hfree
    | passes => rw [pass_pending, hp]

/-- Nothing is open behind an event that ends the run or answers. -/
theorem Moves.pending_of_closing {p q : RunState} {event : Event} (h : p.Moves event q)
    (hcloses : event.ending? ≠ none ∨ event.isAnswer = true) : q.pending = none := by
  cases h with
  | ends => rfl
  | answers => rfl
  | asks _ hgoes hno => simp [hgoes, hno] at hcloses
  | passes _ hneutral => simp [hneutral.1, hneutral.2.1] at hcloses

end RunState

/-- An event that passes the gate as a request and goes on is no answer. -/
theorem Gate.isAnswer_eq_false_of_isRequest {p q : RunState} {event : Event}
    {history : List Record} (hrules : Gate.kindRules event history p = [])
    (hmoves : p.Moves event q) (hgoes : event.ending? = none) (hrequest : event.isRequest = true) :
    event.isAnswer = false := by
  refine Bool.eq_false_iff.mpr fun hanswer => ?_
  have hresolved : event.approval.status.isResolved = true :=
    ((RunState.moves_iff_of_answers (Event.role_eq_answers_iff.mpr ⟨hgoes, hanswer⟩)).mp
      hmoves).2.2.1.verdict
  have hunasked : event.approval.status ≠ .pending := by
    intro hpending
    rw [hpending] at hresolved
    cases hresolved
  have hkind : event.kind = .approvalRequested := by
    simpa [Event.isRequest, hunasked] using hrequest
  simp [Gate.kindRules, hkind, Gate.requestRules, hunasked] at hrules

theorem Record.IsReadBefore.asymm {a b : Record} (h : a.IsReadBefore b) : ¬ b.IsReadBefore a := by
  rintro (hlt | ⟨heq, hplace⟩)
  · rcases h with hlt' | ⟨heq', -⟩
    · exact lt_asymm hlt hlt'
    · exact hlt.ne' heq'
  · rcases h with hlt' | ⟨-, hplace'⟩
    · exact hlt'.ne' heq
    · omega

theorem Record.IsReadBefore.irrefl (a : Record) : ¬ a.IsReadBefore a :=
  fun h => h.asymm h

instance (a b : Record) : Decidable (a.IsReadBefore b) :=
  inferInstanceAs (Decidable (_ ∨ _))

namespace MemoryStore

variable {store : MemoryStore} {log : List Record} {decisionId runId : String}
  {last r : Record} {request : OpenRequest} {target : Record}

/-! ## The last signal of a policy decision -/

/-- The record is the last one in read order that asks or answers for the policy decision. -/
structure IsLastSignal (store : MemoryStore) (decisionId : String) (last : Record) : Prop where
  mem : last ∈ store.records
  signal : last.isSignal = true
  carries : last.carries decisionId = true
  last : ∀ r ∈ store.records, r.isSignal = true → r.carries decisionId = true →
    r = last ∨ r.IsReadBefore last

/-- The last record in read order that asks or answers for a policy decision, as requests find it. -/
def lastSignal? (store : MemoryStore) (decisionId : String) : Option Record :=
  ((store.carriersOf decisionId).filter Record.isSignal).getLast?

theorem Holds.isLastSignal (h : store.Holds log)
    (hlast : store.lastSignal? decisionId = some last) : store.IsLastSignal decisionId last := by
  obtain ⟨earlier, hsplit⟩ := List.getLast?_eq_some_iff.mp hlast
  have hmem {x : Record} : x ∈ (store.carriersOf decisionId).filter Record.isSignal ↔
      (x ∈ store.records ∧ x.carries decisionId = true) ∧ x.isSignal = true := by
    rw [List.mem_filter, mem_carriersOf]
  have hordered := (h.carriersOf_ordered decisionId).filter Record.isSignal
  obtain ⟨⟨hlogged, hcarries⟩, hsignal⟩ := hmem.mp (List.mem_of_getLast? hlast)
  refine ⟨hlogged, hsignal, hcarries, fun r hr hrsignal hrcarries => ?_⟩
  have hlisted := hmem.mpr ⟨⟨hr, hrcarries⟩, hrsignal⟩
  rw [hsplit, List.pairwise_append] at hordered
  rw [hsplit, List.mem_append, List.mem_singleton] at hlisted
  rcases hlisted with hearlier | rfl
  · exact .inr (hordered.2.2 r hearlier last (List.mem_singleton_self last))
  · exact .inl rfl

theorem lastSignal?_eq_none_iff :
    store.lastSignal? decisionId = none ↔ store.IsUndecided decisionId := by
  rw [lastSignal?, List.getLast?_eq_none_iff, List.filter_eq_nil_iff]
  simp only [mem_carriersOf, IsUndecided, and_imp, Bool.not_eq_true]
  exact forall₂_congr fun r _ => by cases r.isSignal <;> cases r.carries decisionId <;> simp

theorem Sound.exists_isLastSignal (hs : store.Sound) (h : ¬ store.IsUndecided decisionId) :
    ∃ last, store.lastSignal? decisionId = some last ∧ store.IsLastSignal decisionId last := by
  obtain ⟨⟨log, hlog⟩, -⟩ := hs
  cases hlast : store.lastSignal? decisionId with
  | none => exact absurd (lastSignal?_eq_none_iff.mp hlast) h
  | some last => exact ⟨last, rfl, hlog.isLastSignal hlast⟩

/-- No signal of the policy decision is read behind the last one. -/
theorem IsLastSignal.not_isReadBefore (h : store.IsLastSignal decisionId last)
    (hr : r ∈ store.records) (hsignal : r.isSignal = true) (hcarries : r.carries decisionId = true) :
    ¬ last.IsReadBefore r := by
  intro hbehind
  rcases h.last r hr hsignal hcarries with rfl | hearlier
  · exact Record.IsReadBefore.irrefl r hbehind
  · exact hearlier.asymm hbehind

theorem IsLastSignal.unique {last' : Record} (h : store.IsLastSignal decisionId last)
    (h' : store.IsLastSignal decisionId last') : last' = last :=
  (h.last last' h'.mem h'.signal h'.carries).resolve_right
    (h'.not_isReadBefore h.mem h.signal h.carries)

/-! ## The run of the last signal -/

theorem Holds.readOrder_isReadBefore (h : store.Holds log) (runId : String) :
    (store.readOrder runId).Pairwise Record.IsReadBefore := by
  refine Record.sortForReading_isReadBefore ?_
  rw [h.run]
  exact h.places_nodup.sublist (List.filter_sublist.map Record.sequence)

theorem Sound.mem_readOrder (hs : store.Sound) :
    r ∈ store.readOrder runId ↔ r ∈ store.records ∧ r.runId = runId := by
  obtain ⟨⟨log, hlog⟩, -⟩ := hs
  rw [hlog.mem_readOrder, hlog.mem_records]

/-- Where a record stands in its run: what is read behind it, and the state it found and left. -/
theorem Sound.exists_split (hs : store.Sound) (hr : r ∈ store.records) :
    ∃ before after p q state, store.readOrder r.runId = before ++ r :: after ∧
      (∀ x ∈ after, r.IsReadBefore x) ∧ Gate.kindRules r.event before p = [] ∧
      p.Moves r.event q ∧ q.steps (after.map Record.event) = .ok state ∧
      RunState.ofRecords (store.readOrder r.runId) = .ok state := by
  obtain ⟨before, after, hsplit⟩ := List.append_of_mem (hs.mem_readOrder.mpr ⟨hr, rfl⟩)
  obtain ⟨⟨log, hlog⟩, hhistories⟩ := hs
  have hhistory := hhistories r.runId
  have hordered := hlog.readOrder_isReadBefore r.runId
  rw [hsplit, List.pairwise_append] at hordered
  obtain ⟨p, -, hbefore, hrules, -⟩ := hhistory.exists_moves hsplit
  obtain ⟨state, hstate⟩ := hhistory.exists_state
  have hwalk := hstate
  rw [hsplit, RunState.ofRecords, List.map_append, List.map_cons] at hwalk
  obtain ⟨p', hbefore', hrest⟩ := RunState.steps_append_eq_ok_iff.mp hwalk
  obtain rfl : p' = p := Except.ok.inj (hbefore'.symm.trans hbefore)
  obtain ⟨q, hmoves, hafter⟩ := RunState.steps_cons_eq_ok_iff.mp hrest
  exact ⟨before, after, p', q, state, hsplit, (List.pairwise_cons.mp hordered.2.1).1, hrules,
    hmoves, hafter, hstate⟩

/-- From the record on, its run is ended or a request is answered, and not by an answer that belongs
to the policy decision. -/
def ClosedAside (store : MemoryStore) (decisionId : String) (r : Record) : Prop :=
  ∃ x ∈ store.readOrder r.runId, ¬ x.IsReadBefore r ∧
    (x.event.ending? ≠ none ∨ (x.event.isAnswer = true ∧ x.carries decisionId = false))

/-- From the request on that a run waits for, nothing in the run ends it or answers. -/
theorem WaitsOn.stays_open (h : store.WaitsOn runId request target) (hs : store.Sound)
    (hr : r ∈ store.readOrder runId) (hbehind : ¬ r.IsReadBefore target) :
    r.event.ending? = none ∧ r.event.isAnswer = false := by
  obtain ⟨hlogged, rfl⟩ := hs.mem_readOrder.mp hr
  obtain ⟨before, after, p, q, state, hsplit, hafter, -, hmoves, hrest, hstate⟩ :=
    hs.exists_split hlogged
  obtain rfl : state = ⟨.paused, some request⟩ := Except.ok.inj (hstate.symm.trans h.paused)
  by_contra hcloses
  have hnone : q.pending = none := by
    refine hmoves.pending_of_closing ?_
    by_contra hno
    exact hcloses (by simpa using hno)
  -- the open request would have been asked for behind the record
  rcases RunState.exists_of_pending hrest rfl with hwaits | ⟨event, hevent, -, hopens⟩
  · rw [hnone] at hwaits
    cases hwaits
  · obtain ⟨x, hx, rfl⟩ := List.mem_map.mp hevent
    have hlisted : x ∈ store.readOrder r.runId := by
      rw [hsplit]
      exact List.mem_append_right before (List.mem_cons_of_mem r hx)
    have hnamed : x.eventId = target.eventId := by
      rw [h.named, ← hopens]
      rfl
    obtain rfl := hs.eq_of_eventId hlisted h.mem hnamed
    exact hbehind (hafter x hx)

theorem not_closedAside_iff : ¬ store.ClosedAside decisionId r ↔
    ∀ x ∈ store.readOrder r.runId, ¬ x.IsReadBefore r →
      x.event.ending? = none ∧ (x.event.isAnswer = true → x.carries decisionId = true) := by
  simp only [ClosedAside, not_exists, not_and, not_or, not_not, Bool.not_eq_false]

/-- Behind a last signal that is not closed aside, nothing in its run ends it or answers. -/
theorem IsLastSignal.goes_on (h : store.IsLastSignal decisionId last) (hs : store.Sound)
    (hopen : ¬ store.ClosedAside decisionId last) (hr : r ∈ store.readOrder last.runId)
    (hbehind : last.IsReadBefore r) : r.event.ending? = none ∧ r.event.isAnswer = false := by
  obtain ⟨hgoes, hanswers⟩ := not_closedAside_iff.mp hopen r hr hbehind.asymm
  refine ⟨hgoes, Bool.eq_false_iff.mpr fun hyes => ?_⟩
  -- an answer that belongs to the policy decision would be a later signal of it
  have hsignal : r.isSignal = true := by simp [Record.isSignal, hyes]
  exact h.not_isReadBefore (hs.mem_readOrder.mp hr).1 hsignal (hanswers hyes) hbehind

/-- If the last signal of a policy decision asks, its run waits for the answer exactly if the request
was not closed aside. -/
theorem IsLastSignal.waits_iff (h : store.IsLastSignal decisionId last) (hs : store.Sound)
    (hrequest : last.event.isRequest = true) :
    store.WaitsForDecision last.runId decisionId last.event.toOpenRequest last ↔
      ¬ store.ClosedAside decisionId last := by
  have hlisted : last ∈ store.readOrder last.runId := hs.mem_readOrder.mpr ⟨h.mem, rfl⟩
  constructor
  · rintro hwaits ⟨x, hx, hbehind, hcloses⟩
    obtain ⟨hgoes, hanswer⟩ := hwaits.toWaitsOn.stays_open hs hx hbehind
    simp [hgoes, hanswer] at hcloses
  · intro hopen
    obtain ⟨before, after, p, q, state, hsplit, hbehind, hrules, hmoves, hafter, hstate⟩ :=
      hs.exists_split h.mem
    -- the request opens, and stays open behind itself
    have hgoes := (not_closedAside_iff.mp hopen last hlisted (Record.IsReadBefore.irrefl last)).1
    have hanswer := Gate.isAnswer_eq_false_of_isRequest hrules hmoves hgoes hrequest
    have hopens := (hmoves.pending_of_isRequest hgoes hanswer hrequest).2
    have hpending : state.pending = some last.event.toOpenRequest := by
      refine RunState.pending_of_steps hafter hopens fun event hevent => ?_
      obtain ⟨x, hx, rfl⟩ := List.mem_map.mp hevent
      have hx' : x ∈ store.readOrder last.runId := by
        rw [hsplit]
        exact List.mem_append_right before (List.mem_cons_of_mem last hx)
      exact h.goes_on hs hopen hx' (hbehind x hx)
    have hpaused := (RunState.coherent_of_steps RunState.coherent_start hstate).mpr
      (by rw [hpending]; rfl)
    obtain ⟨status, pending⟩ := state
    obtain rfl : pending = _ := hpending
    obtain rfl : status = .paused := hpaused
    exact ⟨⟨hstate, hlisted, rfl⟩, h.carries⟩

theorem WaitsForDecision.isSignal
    (h : store.WaitsForDecision runId decisionId request target) (hs : store.Sound) :
    target.isSignal = true := by
  simp [Record.isSignal, h.toWaitsOn.asks hs]

/-- If the last signal of a policy decision does not ask, its run waits for no request of it. -/
theorem IsLastSignal.not_waits (h : store.IsLastSignal decisionId last) (hs : store.Sound)
    (hrequest : last.event.isRequest = false) :
    ¬ store.WaitsForDecision last.runId decisionId request target := by
  intro hwaits
  have hlisted : last ∈ store.readOrder last.runId := hs.mem_readOrder.mpr ⟨h.mem, rfl⟩
  have hanswer : last.event.isAnswer = true := by
    simpa [Record.isSignal, hrequest] using h.signal
  have hbehind : ¬ last.IsReadBefore target := h.not_isReadBefore
    (hwaits.toWaitsOn.mem_records hs) (hwaits.isSignal hs) hwaits.carries
  rw [(hwaits.toWaitsOn.stays_open hs hlisted hbehind).2] at hanswer
  cases hanswer

/-- Some run waits for the answer to a request of the policy decision. -/
def IsAwaited (store : MemoryStore) (decisionId : String) : Prop :=
  ∃ runId request target, store.WaitsForDecision runId decisionId request target

/-- All that asks or answers for the policy decision is of one run, and if the last of it asks, that
request is not closed aside. -/
structure KeepsTogether (store : MemoryStore) (decisionId : String) : Prop where
  oneRun : ∀ a ∈ store.records, ∀ b ∈ store.records,
    a.isSignal = true → a.carries decisionId = true →
    b.isSignal = true → b.carries decisionId = true → a.runId = b.runId
  closed : ∀ last, store.IsLastSignal decisionId last → last.event.isRequest = true →
    ¬ store.ClosedAside decisionId last

theorem not_isAwaited_of_isUndecided (hs : store.Sound) (h : store.IsUndecided decisionId) :
    ¬ store.IsAwaited decisionId := by
  rintro ⟨runId, request, target, hwaits⟩
  have hcarries := hwaits.carries
  rw [h target (hwaits.toWaitsOn.mem_records hs) (hwaits.isSignal hs)] at hcarries
  cases hcarries

theorem IsLastSignal.not_isUndecided (h : store.IsLastSignal decisionId last) :
    ¬ store.IsUndecided decisionId := by
  intro hnone
  have hcarries := h.carries
  rw [hnone last h.mem h.signal] at hcarries
  cases hcarries

/-- A policy decision that is kept together is awaited exactly if its last signal asks. -/
theorem IsLastSignal.isAwaited_iff (h : store.IsLastSignal decisionId last) (hs : store.Sound)
    (htogether : store.KeepsTogether decisionId) :
    store.IsAwaited decisionId ↔ last.event.isRequest = true := by
  constructor
  · rintro ⟨runId, request, target, hwaits⟩
    by_contra hno
    have hrun : last.runId = runId := by
      rw [← hwaits.toWaitsOn.runId_eq hs]
      exact htogether.oneRun last h.mem target (hwaits.toWaitsOn.mem_records hs) h.signal
        h.carries (hwaits.isSignal hs) hwaits.carries
    exact h.not_waits hs (Bool.eq_false_iff.mpr hno) (hrun ▸ hwaits)
  · intro hrequest
    exact ⟨_, _, _, (h.waits_iff hs hrequest).mpr (htogether.closed last h hrequest)⟩

end MemoryStore

/-! ## What is told -/

namespace Repetition

/-- What is told about a policy decision with this last signal. -/
def ofSignal (last : Record) : Repetition :=
  if last.event.isRequest then .pending else .resolved

/-- What is told to who asks about a policy decision again, and how far it says what the runs wait
for. -/
structure Tells (repetition : Repetition) (store : MemoryStore) (decisionId : String) : Prop where
  /-- the event for the request is there exactly if nothing asks or answers for the decision -/
  exists_iff : repetition = .exists ↔ store.IsUndecided decisionId
  /-- the decision is pending exactly if the last event that asks or answers for it asks -/
  pending_iff : repetition = .pending ↔
    ∃ last, store.IsLastSignal decisionId last ∧ last.event.isRequest = true
  /-- then the run of that event waits for the answer, unless the request was closed aside -/
  pending : repetition = .pending → ∀ last, store.IsLastSignal decisionId last →
    (store.WaitsForDecision last.runId decisionId last.event.toOpenRequest last ↔
      ¬ store.ClosedAside decisionId last)
  /-- the decision is resolved exactly if that event answers only -/
  resolved_iff : repetition = .resolved ↔
    ∃ last, store.IsLastSignal decisionId last ∧ last.event.isRequest = false
  /-- then the run of that event does not wait for an answer, whatever other runs do -/
  resolved : repetition = .resolved → ∀ last, store.IsLastSignal decisionId last →
    ∀ request target, ¬ store.WaitsForDecision last.runId decisionId request target
  /-- a decision that is kept together is pending exactly while it is awaited -/
  rightly : store.KeepsTogether decisionId →
    (repetition = .pending ↔ store.IsAwaited decisionId) ∧
    (repetition = .resolved ↔ repetition ≠ .exists ∧ ¬ store.IsAwaited decisionId)

variable {store : MemoryStore} {decisionId : String} {last : Record}

theorem ofSignal_eq_pending_iff : ofSignal last = .pending ↔ last.event.isRequest = true := by
  cases h : last.event.isRequest <;> simp [ofSignal, h]

theorem ofSignal_eq_resolved_iff : ofSignal last = .resolved ↔ last.event.isRequest = false := by
  cases h : last.event.isRequest <;> simp [ofSignal, h]

theorem ofSignal_ne_exists : ofSignal last ≠ .exists := by
  cases h : last.event.isRequest <;> simp [ofSignal, h]

theorem tells_exists (hs : store.Sound) (hnone : store.IsUndecided decisionId) :
    Repetition.exists.Tells store decisionId := by
  have hlast (last : Record) : ¬ store.IsLastSignal decisionId last :=
    fun h => h.not_isUndecided hnone
  have hawaited := MemoryStore.not_isAwaited_of_isUndecided hs hnone
  exact {
    exists_iff := ⟨fun _ => hnone, fun _ => rfl⟩
    pending_iff := by simp [hlast]
    resolved_iff := by simp [hlast]
    pending := by simp
    resolved := by simp
    rightly := by simp [hawaited] }

theorem tells_ofSignal (hs : store.Sound) (hlast : store.IsLastSignal decisionId last) :
    (ofSignal last).Tells store decisionId := by
  have hasks (asks : Bool) : (∃ x, store.IsLastSignal decisionId x ∧ x.event.isRequest = asks) ↔
      last.event.isRequest = asks := by
    constructor
    · rintro ⟨x, hx, hasks⟩
      rwa [hlast.unique hx] at hasks
    · exact fun hasks => ⟨last, hlast, hasks⟩
  refine ⟨?_, ?_, fun hpending x hx => ?_, ?_, fun hresolved x hx request target => ?_,
    fun htogether => ?_⟩
  · simp [ofSignal_ne_exists, hlast.not_isUndecided]
  · rw [ofSignal_eq_pending_iff, hasks]
  · rw [hlast.unique hx]
    exact hlast.waits_iff hs (ofSignal_eq_pending_iff.mp hpending)
  · rw [ofSignal_eq_resolved_iff, hasks]
  · rw [hlast.unique hx]
    exact hlast.not_waits hs (ofSignal_eq_resolved_iff.mp hresolved)
  · rw [ofSignal_eq_pending_iff, ofSignal_eq_resolved_iff, hlast.isAwaited_iff hs htogether]
    simp [ofSignal_ne_exists]

end Repetition

namespace Ledger

variable {ledger next : Ledger MemoryStore} {around : Surroundings} {request : ApprovalRequest}

/-! ## Asking again -/

theorem refuseRepetition_apply (decisionId : String) (ledger : Ledger MemoryStore) :
    refuseRepetition decisionId (ledger.store.carriersOf decisionId) ledger =
      match ledger.store.lastSignal? decisionId with
      | some last => (.error (.duplicateApproval decisionId (.ofSignal last)), ledger)
      | none => (.ok (), ledger) := by
  unfold refuseRepetition MemoryStore.lastSignal?
  cases ((ledger.store.carriersOf decisionId).filter Record.isSignal).getLast? <;> rfl

/-- Who asks again is told what the last signal says. -/
theorem register_of_lastSignal {last : Record} (hdecision : trim request.decisionId ≠ "")
    (hlast : ledger.store.lastSignal? (trim request.decisionId) = some last) :
    register around request ledger =
      (.error (.duplicateApproval (trim request.decisionId) (.ofSignal last)), ledger) := by
  have hrefused := refuseRepetition_apply (trim request.decisionId) ledger
  rw [hlast] at hrefused
  unfold register
  dsimp only
  rw [if_neg hdecision, bind_apply, recordsOfDecision_apply]
  dsimp only
  rw [bind_apply, ← MemoryStore.carriersOf, hrefused]

/-- A submission is refused for the rules or by the store. -/
theorem cases_of_submit_error {event : Event} {error : RequestError}
    (h : submit event ledger = (.error error, next)) :
    (∃ violations, error = .rules violations) ∨ ∃ fault, error = .store fault := by
  rw [submit_apply] at h
  split at h
  · split at h
    · obtain ⟨fault, rfl, -⟩ := exists_fault_of_call h
      exact .inr ⟨fault, rfl⟩
    · cases h
      exact .inl ⟨_, rfl⟩
  · cases h
    exact .inr ⟨_, rfl⟩

/-- An event that is refused is a duplicate only in that it is there already. -/
theorem repetition_of_submit {event : Event} {decisionId id : String} {repetition : Repetition}
    (h : (ExceptT.adapt (requestExists decisionId) (submit event) : LedgerM MemoryStore _) ledger =
      (.error (.duplicateApproval id repetition), next)) :
    id = decisionId ∧ repetition = .exists := by
  have hcause : (submit event ledger).1.mapError (requestExists decisionId) =
      .error (.duplicateApproval id repetition) := (Prod.mk.inj h).1
  rcases hsubmit : submit event ledger with ⟨error | r, middle⟩
  · rw [hsubmit] at hcause
    have hsame := Except.error.inj hcause
    rcases cases_of_submit_error hsubmit with ⟨violations, rfl⟩ | ⟨fault, rfl⟩
    · cases hsame
    · cases fault <;> cases hsame
      exact ⟨rfl, rfl⟩
  · rw [hsubmit] at hcause
    cases hcause

/-- What is told to who asks again: what the last signal says, or that the event is there already if
there is no signal. -/
theorem repetition_of_register {id : String} {repetition : Repetition}
    (h : register around request ledger = (.error (.duplicateApproval id repetition), next)) :
    id = trim request.decisionId ∧
      ((ledger.store.lastSignal? id = none ∧ repetition = .exists) ∨
        ∃ last, ledger.store.lastSignal? id = some last ∧ repetition = .ofSignal last) := by
  by_cases hblank : trim request.decisionId = ""
  · unfold register at h
    dsimp only at h
    rw [if_pos hblank, throw_bind] at h
    cases (Prod.mk.inj h).1
  cases hlast : ledger.store.lastSignal? (trim request.decisionId) with
  | some last =>
    rw [register_of_lastSignal hblank hlast] at h
    cases h
    exact ⟨rfl, .inr ⟨last, hlast, rfl⟩⟩
  | none =>
    have hpasses := refuseRepetition_apply (trim request.decisionId) ledger
    rw [hlast] at hpasses
    unfold register at h
    dsimp only at h
    rw [if_neg hblank, bind_apply, recordsOfDecision_apply] at h
    dsimp only at h
    rw [bind_apply, ← MemoryStore.carriersOf, hpasses] at h
    dsimp only at h
    rw [bind_apply, readRun_apply] at h
    dsimp only at h
    rcases bind_eq_error_iff.mp h with hclock | ⟨now, _, -, h⟩
    · cases hclock
    rcases bind_eq_error_iff.mp h with htoken | ⟨token, _, -, h⟩
    · cases htoken
    rcases bind_eq_error_iff.mp h with hsubmit | ⟨r, _, -, hreturn⟩
    · obtain ⟨rfl, rfl⟩ := repetition_of_submit hsubmit
      exact ⟨rfl, .inl ⟨hlast, rfl⟩⟩
    · cases hreturn

/-- Asking about the policy decision on a letter again. -/
def policyAgain : ApprovalRequest :=
  ⟨"policy", "run", "agent", "Send the letter?", "The letter is ready.", .low, none⟩

/-- Who asks about it again, is told what its last signal says. -/
theorem exists_register_policyAgain (hs : ledger.store.Sound)
    (hdecided : ¬ ledger.store.IsUndecided "policy") :
    ∃ last, ledger.store.IsLastSignal "policy" last ∧
      register around policyAgain ledger =
        (.error (.duplicateApproval "policy" (.ofSignal last)), ledger) := by
  obtain ⟨last, hfound, hlast⟩ := hs.exists_isLastSignal hdecided
  have hpolicy : trim policyAgain.decisionId = "policy" := by decide +kernel
  refine ⟨last, hlast, ?_⟩
  rw [register_of_lastSignal (by decide +kernel) (hpolicy.symm ▸ hfound), hpolicy]

/-- Whatever has been asked of a fresh ledger, in whatever order: who asks about a policy decision and
is told that there is a request already is told what the last event on record says that asks or
answers for it.  That is where the policy decision stands if it keeps to one run and its requests
are closed by its answers only. -/
theorem repetition_tells_last_signal (operations : List (Operation MemoryStore))
    (around : Surroundings) (request : ApprovalRequest) (id : String) (repetition : Repetition)
    (next : Ledger MemoryStore)
    (h : register around request (inMemory.after operations) =
      (.error (.duplicateApproval id repetition), next)) :
    id = trim request.decisionId ∧ repetition.Tells (inMemory.after operations).store id := by
  have hs := sound_after operations
  generalize inMemory.after operations = ledger at *
  obtain ⟨hid, ⟨hnone, rfl⟩ | ⟨last, hlast, rfl⟩⟩ := repetition_of_register h
  · exact ⟨hid, Repetition.tells_exists hs (MemoryStore.lastSignal?_eq_none_iff.mp hnone)⟩
  · have ⟨⟨log, hlog⟩, _⟩ := hs
    exact ⟨hid, Repetition.tells_ofSignal hs (hlog.isLastSignal hlast)⟩

/-- The only request of a policy decision is called pending, and it is open. -/
theorem open_policy_is_called_pending :
    register stillSurroundings policyAgain (inMemory.after [.submit (policyRequest "ask" 5)]) =
        (.error (.duplicateApproval "policy" .pending),
          inMemory.after [.submit (policyRequest "ask" 5)]) ∧
      (inMemory.after [.submit (policyRequest "ask" 5)]).store.IsAwaited "policy" := by
  have hs := sound_after [.submit (policyRequest "ask" 5)]
  have hall : ∀ r ∈ (inMemory.after [.submit (policyRequest "ask" 5)]).store.records,
      r.runId = "run" ∧ r.event.ending? = none ∧ r.event.isRequest = true ∧
        r.event.isAnswer = false := by
    decide +kernel
  obtain ⟨last, hlast, hanswer⟩ := exists_register_policyAgain hs (by decide +kernel)
  rw [Repetition.ofSignal_eq_pending_iff.mpr (hall last hlast.mem).2.2.1] at hanswer
  have htells := (repetition_tells_last_signal _ _ _ _ _ _ hanswer).2
  refine ⟨hanswer, (htells.rightly ⟨?_, ?_⟩).1.mp rfl⟩
  · intro a ha b hb _ _ _ _
    rw [(hall a ha).1, (hall b hb).1]
  · rintro last - - ⟨x, hx, -, hcloses⟩
    obtain ⟨-, hgoes, -, hno⟩ := hall x (hs.mem_readOrder.mp hx).1
    simp [hgoes, hno] at hcloses

/-! ### A request that ends without an answer, and one that is answered in another run -/

/-- The run expires, twenty milliseconds after the start. -/
def policyExpiry : Event :=
  { Event.plain "late" "run" (Time.Instant.epoch.addMillis 20) .observation .agent "Too late"
      "The run has expired." with
    origin := some ⟨approvalWorkflow, "run_expired"⟩ }

/-- A request for the policy decision, and the end of its run. -/
def policyExpired : List (Operation MemoryStore) :=
  [.submit (policyRequest "ask" 5), .submit policyExpiry]

/-- The store that holds the two. -/
def policyExpiredStore : MemoryStore :=
  ((MemoryStore.empty.append (policyRequest "ask" 5).normalized).2.append
    policyExpiry.normalized).2

theorem after_policyExpired : inMemory.after policyExpired = ⟨policyExpiredStore, 0⟩ := by
  simp only [policyExpired, after, inMemory, Ledger.on]
  rw [next_submit_of_ordered (by decide +kernel) (by decide +kernel) (by decide +kernel),
    next_submit_of_ordered (by decide +kernel) (by decide +kernel) (by decide +kernel)]
  rfl

/-- The policy decision is called pending although its run has expired. -/
theorem expired_policy_is_called_pending :
    register stillSurroundings policyAgain (inMemory.after policyExpired) =
        (.error (.duplicateApproval "policy" .pending), inMemory.after policyExpired) ∧
      ¬ (inMemory.after policyExpired).store.IsAwaited "policy" := by
  have hs := sound_after policyExpired
  rw [after_policyExpired] at hs ⊢
  have hall : ∀ r ∈ policyExpiredStore.records, r.runId = "run" ∧
      (r.isSignal = true → r.event.isRequest = true) := by decide +kernel
  constructor
  · obtain ⟨last, hlast, hanswer⟩ := exists_register_policyAgain hs (by decide +kernel)
    rwa [Repetition.ofSignal_eq_pending_iff.mpr ((hall last hlast.mem).2 hlast.signal)] at hanswer
  · rintro ⟨runId, request, target, hwaits⟩
    have hrun := (hall target (hwaits.toWaitsOn.mem_records hs)).1
    rw [hwaits.toWaitsOn.runId_eq hs] at hrun
    subst hrun
    have hexpired : RunState.ofRecords (policyExpiredStore.readOrder "run") =
        .ok ⟨.expired, none⟩ := by
      rw [MemoryStore.readOrder_of_ordered (by decide +kernel)]
      decide +kernel
    cases hexpired.symm.trans hwaits.paused

/-- A request for the policy decision in one run, and another one in another run with its answer. -/
def policyElsewhere : List (Operation MemoryStore) :=
  [.submit (policyRequest "ask" 5), .submit { policyRequest "other" 6 with runId := "elsewhere" },
    .submit { policyAnswer with runId := "elsewhere" }]

/-- The store that holds the three. -/
def policyElsewhereStore : MemoryStore :=
  (((MemoryStore.empty.append (policyRequest "ask" 5).normalized).2.append
    { policyRequest "other" 6 with runId := "elsewhere" }.normalized).2.append
    { policyAnswer with runId := "elsewhere" }.normalized).2

theorem after_policyElsewhere : inMemory.after policyElsewhere = ⟨policyElsewhereStore, 0⟩ := by
  simp only [policyElsewhere, after, inMemory, Ledger.on]
  rw [next_submit_of_ordered (by decide +kernel) (by decide +kernel) (by decide +kernel),
    next_submit_of_ordered (by decide +kernel) (by decide +kernel) (by decide +kernel),
    next_submit_of_ordered (by decide +kernel) (by decide +kernel) (by decide +kernel)]
  rfl

/-- The policy decision is called resolved although a run waits for the answer. -/
theorem awaited_policy_is_called_resolved :
    register stillSurroundings policyAgain (inMemory.after policyElsewhere) =
        (.error (.duplicateApproval "policy" .resolved), inMemory.after policyElsewhere) ∧
      (inMemory.after policyElsewhere).store.IsAwaited "policy" := by
  have hs := sound_after policyElsewhere
  rw [after_policyElsewhere] at hs ⊢
  constructor
  · obtain ⟨yes, hyes, hsignal, hcarries, hno, hlatest⟩ : ∃ yes ∈ policyElsewhereStore.records,
        yes.isSignal = true ∧ yes.carries "policy" = true ∧ yes.event.isRequest = false ∧
          ∀ r ∈ policyElsewhereStore.records, ¬ yes.IsReadBefore r := by decide +kernel
    obtain ⟨last, hlast, hanswer⟩ := exists_register_policyAgain hs (by decide +kernel)
    obtain rfl : yes = last :=
      (hlast.last yes hyes hsignal hcarries).resolve_right (hlatest last hlast.mem)
    rwa [Repetition.ofSignal_eq_resolved_iff.mpr hno] at hanswer
  · obtain ⟨target, hmem, hnamed, hcarries⟩ : ∃ target ∈ (policyElsewhereStore.run "run").records,
        target.eventId = "ask" ∧ target.carries "policy" = true := by decide +kernel
    have hread : policyElsewhereStore.readOrder "run" =
        (policyElsewhereStore.run "run").records :=
      MemoryStore.readOrder_of_ordered (by decide +kernel)
    refine ⟨"run", (policyRequest "ask" 5).toOpenRequest, target, ⟨?_, hread ▸ hmem, hnamed⟩,
      hcarries⟩
    rw [hread]
    decide +kernel

/-- That a policy decision is pending is told although no run waits for an answer, and that it is
resolved although one does. -/
theorem repetition_misleads :
    (¬ ∀ operations around request id next,
      register around request (inMemory.after operations) =
        (.error (.duplicateApproval id .pending), next) →
      (inMemory.after operations).store.IsAwaited id) ∧
    (¬ ∀ operations around request id next,
      register around request (inMemory.after operations) =
        (.error (.duplicateApproval id .resolved), next) →
      ¬ (inMemory.after operations).store.IsAwaited id) := by
  constructor
  · intro h
    obtain ⟨hpending, hopen⟩ := expired_policy_is_called_pending
    exact hopen (h _ _ _ _ _ hpending)
  · intro h
    obtain ⟨hresolved, hopen⟩ := awaited_policy_is_called_resolved
    exact h _ _ _ _ _ hresolved hopen

end Ledger

end RunLedger
