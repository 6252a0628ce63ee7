/-
  Proofs/Ledger/Isolation.lean --- runs do not see each other.

  WHAT THIS FILE IS FOR.  All runs share the places of a ledger, and places decide
  between records of one time.  So what is recorded in one run could tell in another.
  It does not: the places of a run grow in the order in which its events are accepted,
  whatever is accepted in between, and nothing but their order is looked at.  With the
  places left out, a run is a function of the events that are submitted to it.
-/
import RunLedger.Proofs.Ledger.Acceptance

set_option autoImplicit false

namespace RunLedger

/-! ## Without places -/

namespace Record

/-- The record with its place left out. -/
def withoutPlace (r : Record) : Record := { r with sequence := 0 }

@[simp] theorem withoutPlace_event (r : Record) : r.withoutPlace.event = r.event := rfl

theorem event_comp_withoutPlace : event ∘ withoutPlace = event := rfl

theorem event_eq_of_withoutPlace {r r' : Record} (h : r.withoutPlace = r'.withoutPlace) :
    r.event = r'.event := by
  rw [← withoutPlace_event, h, withoutPlace_event]

/-- Records that differ in their places only lead the head of their run to the same one. -/
theorem after_eq_of_withoutPlace {r r' : Record} (h : r.withoutPlace = r'.withoutPlace)
    (head : RunTip) : head.after r = head.after r' := by
  have hhead (x : Record) : head.after x.withoutPlace = head.after x := rfl
  rw [← hhead r, h, hhead]

end Record

open Record (withoutPlace)

theorem splitPoint_map {α β : Type} (f : α → β) (holds : β → Bool) (items : List α) :
    splitPoint holds (items.map f) = splitPoint (holds ∘ f) items := by
  simp only [splitPoint, List.getElem?_map, Option.any_map, List.length_map]
  rfl

theorem RunState.ofRecords_map_withoutPlace (history : List Record) :
    ofRecords (history.map withoutPlace) = ofRecords history := by
  rw [ofRecords, List.map_map, Record.event_comp_withoutPlace, ofRecords]

namespace Gate

theorem readPosition_map_withoutPlace (event : Event) (history : List Record) :
    readPosition event (history.map withoutPlace) = readPosition event history :=
  splitPoint_map withoutPlace _ history

theorem decisionOf?_map_withoutPlace (history : List Record) (request : OpenRequest) :
    decisionOf? (history.map withoutPlace) request = decisionOf? history request := by
  rw [decisionOf?, List.find?_map, Option.bind_map]
  rfl

/-- The gate does not look at places. -/
theorem violations_map_withoutPlace (event : Event) (history : List Record) :
    violations event (history.map withoutPlace) = violations event history := by
  have hkind (p : RunState) :
      kindRules event (history.map withoutPlace) p = kindRules event history p :=
    kindRules_congr rfl fun request _ => decisionOf?_map_withoutPlace history request
  have hwith : historyWith event (history.map withoutPlace) = historyWith event history := by
    unfold historyWith
    rw [readPosition_map_withoutPlace, List.map_map, Record.event_comp_withoutPlace]
  unfold violations
  rw [RunState.ofRecords_map_withoutPlace, hwith]
  simp only [hkind]

end Gate

/-! ## One run in two stores -/

namespace MemoryStore

/-- The run looks the same in two stores, but for the places. -/
structure RunAlike (s t : MemoryStore) (runId : String) : Prop where
  ids : (t.run runId).ids = (s.run runId).ids
  head : (t.run runId).head = (s.run runId).head
  chain : (t.run runId).records.map withoutPlace = (s.run runId).records.map withoutPlace
  read : (t.readOrder runId).map withoutPlace = (s.readOrder runId).map withoutPlace

namespace RunAlike

variable {s t : MemoryStore} {runId : String}

theorem refl (s : MemoryStore) (runId : String) : RunAlike s s runId := ⟨rfl, rfl, rfl, rfl⟩

theorem symm (h : RunAlike s t runId) : RunAlike t s runId :=
  ⟨h.ids.symm, h.head.symm, h.chain.symm, h.read.symm⟩

theorem trans {u : MemoryStore} (h : RunAlike s t runId) (h' : RunAlike t u runId) :
    RunAlike s u runId :=
  ⟨h'.ids.trans h.ids, h'.head.trans h.head, h'.chain.trans h.chain, h'.read.trans h.read⟩

theorem state (h : RunAlike s t runId) :
    RunState.ofRecords (t.readOrder runId) = RunState.ofRecords (s.readOrder runId) := by
  rw [← RunState.ofRecords_map_withoutPlace, h.read, RunState.ofRecords_map_withoutPlace]

theorem violations (h : RunAlike s t runId) (event : Event) :
    Gate.violations event (t.readOrder runId) = Gate.violations event (s.readOrder runId) := by
  rw [← Gate.violations_map_withoutPlace, h.read, Gate.violations_map_withoutPlace]

/-- A record of another run leaves the run as it is. -/
theorem of_accepts {r : Record} (haccepts : s.Accepts r t) (hrun : r.runId ≠ runId) :
    RunAlike s t runId := by
  have hsame : t.run runId = s.run runId := by
    rw [run_append haccepts.appended, if_neg hrun.symm]
  refine ⟨by rw [hsame], by rw [hsame], by rw [hsame], ?_⟩
  rw [readOrder, readOrder, hsame]

/-- What two stores answer to an event that is appended to the run differs in the place only. -/
theorem append_fst (h : RunAlike s t runId) {event : Event} (hrun : event.normalized.runId = runId) :
    (t.append event).1.map withoutPlace = (s.append event).1.map withoutPlace := by
  unfold append
  simp only [hrun, h.ids, h.head]
  split <;> rfl

/-- The run looks the same behind records that differ in their places only. -/
theorem accepts (h : RunAlike s t runId) (hs : s.Sound) (ht : t.Sound) {r r' : Record}
    {s' t' : MemoryStore} (hsaccepts : s.Accepts r s') (htaccepts : t.Accepts r' t')
    (hrun : r.runId = runId) (hsame : r'.withoutPlace = r.withoutPlace) :
    RunAlike s' t' runId := by
  have hevent := Record.event_eq_of_withoutPlace hsame
  have hid : r'.eventId = r.eventId := congrArg Event.id hevent
  have hrun' : r'.runId = runId := by rw [← hrun, Record.runId, hevent, Record.runId]
  have hspush : s'.run runId = (s.run runId).push r := by
    rw [run_append hsaccepts.appended, if_pos hrun.symm]
  have htpush : t'.run runId = (t.run runId).push r' := by
    rw [run_append htaccepts.appended, if_pos hrun'.symm]
  have hsplace := (readsInPlace_of_accepts s r s' hs hsaccepts).place
  have htplace := (readsInPlace_of_accepts t r' t' ht htaccepts).place
  rw [hrun] at hsplace
  rw [hrun'] at htplace
  have hposition : Gate.readPosition r'.event (t.readOrder runId) =
      Gate.readPosition r.event (s.readOrder runId) := by
    rw [hevent, ← Gate.readPosition_map_withoutPlace, h.read, Gate.readPosition_map_withoutPlace]
  refine ⟨?_, ?_, ?_, ?_⟩
  · simp only [hspush, htpush, RunJournal.push, h.ids, hid]
  · simp only [hspush, htpush, RunJournal.push, h.head,
      Record.after_eq_of_withoutPlace hsame]
  · simp only [hspush, htpush, RunJournal.push, List.map_append, h.chain, List.map_cons, hsame]
  · simp only [hsplace, htplace, hposition, List.map_append, List.map_cons, List.map_take,
      List.map_drop, h.read, hsame]

end RunAlike

end MemoryStore

/-! ## Submissions -/

namespace Ledger

open MemoryStore (RunAlike)

variable {first second : Ledger MemoryStore} {runId : String} {event : Event}

/-- An event that is submitted to another run leaves the run as it is. -/
theorem runAlike_submit_other (ledger : Ledger MemoryStore)
    (hrun : event.normalized.runId ≠ runId) :
    RunAlike ledger.store (submit event ledger).2.store runId := by
  rcases hsubmit : submit event ledger with ⟨error | r, next⟩
  · rw [submit_error hsubmit]
    exact .refl _ _
  · obtain ⟨hevent, haccepts, -⟩ := submit_eq_ok_iff.mp hsubmit
    refine .of_accepts haccepts ?_
    rwa [Record.runId, hevent]

/-- An event that is submitted to a run in two ledgers is answered alike where the run looks the
same. -/
theorem submit_fst_of_runAlike (h : RunAlike first.store second.store runId)
    (hrun : event.normalized.runId = runId) :
    (submit event second).1.map withoutPlace = (submit event first).1.map withoutPlace := by
  have happend : ((EventStore.append event.normalized : StoreM MemoryStore Record)
        second.store).1.map withoutPlace =
      ((EventStore.append event.normalized : StoreM MemoryStore Record)
        first.store).1.map withoutPlace :=
    h.append_fst (by rw [Event.normalized_normalized, hrun])
  rw [submit_apply, submit_apply, hrun, h.violations]
  split
  · split
    · rw [call_fst_map, call_fst_map, happend]
    · rfl
  · rfl

/-- And behind it the run looks the same again. -/
theorem runAlike_submit (h : RunAlike first.store second.store runId) (hfirst : first.store.Sound)
    (hsecond : second.store.Sound) (hrun : event.normalized.runId = runId) :
    RunAlike (submit event first).2.store (submit event second).2.store runId := by
  have hanswer := submit_fst_of_runAlike h hrun
  rcases hx : submit event first with ⟨error | r, next⟩ <;>
    rcases hy : submit event second with ⟨error' | r', next'⟩ <;>
    rw [hx, hy] at hanswer
  · rw [submit_error hx, submit_error hy]
    exact h
  · cases hanswer
  · cases hanswer
  · obtain ⟨hevent, haccepts, -⟩ := submit_eq_ok_iff.mp hx
    obtain ⟨-, haccepts', -⟩ := submit_eq_ok_iff.mp hy
    refine h.accepts hfirst hsecond haccepts haccepts' ?_ (Except.ok.inj hanswer)
    rw [Record.runId, hevent, hrun]

theorem sound_submit {ledger : Ledger MemoryStore} (hs : ledger.store.Sound) (event : Event) :
    (submit event ledger).2.store.Sound :=
  hs.of_chain (stepsOf_accepts.submit event ledger)

/-- Where a run stands is told alike where the run looks the same. -/
theorem runState_fst_of_runAlike (h : RunAlike first.store second.store runId) :
    (runState runId second).1 = (runState runId first).1 := by
  have hempty : (second.store.readOrder runId).isEmpty = (first.store.readOrder runId).isEmpty := by
    rw [← List.isEmpty_map, h.read, List.isEmpty_map]
  rw [runState, bind_apply, bind_apply, readRun_apply, readRun_apply]
  dsimp only
  rw [hempty]
  cases (first.store.readOrder runId).isEmpty with
  | true => rfl
  | false =>
    show (stateOf (second.store.readOrder runId) second).1 =
      (stateOf (first.store.readOrder runId) first).1
    rw [stateOf, stateOf, h.state]
    cases RunState.ofRecords (first.store.readOrder runId) <;> rfl

/-! ## Events one after the other -/

/-- What a ledger answers to the events of one run, when some events are submitted to it one after
the other. -/
def answersIn (runId : String) (ledger : Ledger MemoryStore) :
    List Event → List (Except RequestError Record)
  | [] => []
  | event :: rest =>
    if event.normalized.runId = runId then
      (submit event ledger).1 :: answersIn runId (submit event ledger).2 rest
    else answersIn runId (submit event ledger).2 rest

/-- The events that belong to a run. -/
def eventsOf (runId : String) (events : List Event) : List Event :=
  events.filter fun event => event.normalized.runId == runId

/-- What becomes of a run is what becomes of it without the events of other runs. -/
theorem runAlike_eventsOf (h : RunAlike first.store second.store runId)
    (hfirst : first.store.Sound) (hsecond : second.store.Sound) (events : List Event) :
    (answersIn runId second (eventsOf runId events)).map (Except.map withoutPlace) =
        (answersIn runId first events).map (Except.map withoutPlace) ∧
      RunAlike (first.after (events.map .submit)).store
        (second.after ((eventsOf runId events).map .submit)).store runId := by
  induction events generalizing first second with
  | nil => exact ⟨rfl, h⟩
  | cons event rest ih =>
    by_cases hrun : event.normalized.runId = runId
    · have hanswer := submit_fst_of_runAlike h hrun
      obtain ⟨hanswers, halike⟩ := ih (runAlike_submit h hfirst hsecond hrun)
        (sound_submit hfirst event) (sound_submit hsecond event)
      have hown : eventsOf runId (event :: rest) = event :: eventsOf runId rest :=
        List.filter_cons_of_pos (beq_iff_eq.mpr hrun)
      rw [hown]
      simp only [answersIn, if_pos hrun, List.map_cons, hanswer, hanswers, after,
        Call.next_submit, true_and]
      exact halike
    · obtain ⟨hanswers, halike⟩ := ih ((runAlike_submit_other first hrun).symm.trans h)
        (sound_submit hfirst event) hsecond
      have hown : eventsOf runId (event :: rest) = eventsOf runId rest :=
        List.filter_cons_of_neg (by simpa using hrun)
      rw [hown]
      simp only [answersIn, if_neg hrun, hanswers, List.map_cons, after, Call.next_submit,
        true_and]
      exact halike

/-- Whatever events are submitted to two fresh ledgers, with the same ones of a run in the same order
among them: the events of the run are accepted or refused alike, with the same errors, and then the
run has the same records, in either order, the same head and the same status.  Only the places
differ. -/
theorem runs_are_isolated (runId : String) (events others : List Event)
    (hsame : eventsOf runId others = eventsOf runId events) :
    (answersIn runId inMemory others).map (Except.map withoutPlace) =
        (answersIn runId inMemory events).map (Except.map withoutPlace) ∧
      RunAlike (inMemory.after (events.map .submit)).store
        (inMemory.after (others.map .submit)).store runId ∧
      (runState runId (inMemory.after (others.map .submit))).1 =
        (runState runId (inMemory.after (events.map .submit))).1 := by
  have hempty := RunAlike.refl inMemory.store runId
  have hsound : inMemory.store.Sound := MemoryStore.sound_empty
  obtain ⟨hanswers, halike⟩ := runAlike_eventsOf hempty hsound hsound events
  obtain ⟨hanswers', halike'⟩ := runAlike_eventsOf hempty hsound hsound others
  rw [hsame] at hanswers' halike'
  have hrun := halike.trans halike'.symm
  exact ⟨hanswers'.symm.trans hanswers, hrun, runState_fst_of_runAlike hrun⟩

/-- Two events of one time are recorded with an event of another run between them and without. -/
theorem letters_are_isolated :
    (answersIn "run" inMemory [letterRequest, { letterDraft with runId := "side" },
        { letterDraft with timestamp := letterRequest.timestamp }]).map (Except.map withoutPlace) =
      (answersIn "run" inMemory [letterRequest,
        { letterDraft with timestamp := letterRequest.timestamp }]).map
          (Except.map withoutPlace) :=
  (runs_are_isolated "run" _ _ (by decide +kernel)).1

end Ledger

end RunLedger
