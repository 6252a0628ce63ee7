/-
  Proofs/Store/Refinement.lean --- a durable store answers like one in memory.

  WHAT THIS FILE IS FOR.  A caller of a store sees its answers only.  Both kinds of
  store answer from one log: `answerOn` says how.  For the store in memory that
  holds of every call; for the durable one as long as the events are legible and
  places are left.  So both give the same answers to the same calls, and opening
  the file again between two calls does not show.

  An event that is not legible makes the difference.  A leap second off the minute
  is stored as the second after it, so the durable store takes the event for a
  later one once it has only the text of its time.
-/
import RunLedger.Proofs.Store.DurableLog

set_option autoImplicit false

namespace RunLedger

/-! ## Calls -/

/-- A call of a store. -/
inductive StoreCall where
  | append (event : Event)
  | readRun (runId : String)
  | readAll
  | readChain (runId : String)
  /-- give the store up and open it again -/
  | reopen

/-- The number of places that the call can take. -/
def StoreCall.places : StoreCall → Nat
  | append _ => 1
  | _ => 0

/-- What a call is answered with. -/
inductive StoreAnswer where
  | recorded (answer : Except StoreError Record)
  | listed (answer : Except StoreError (List Record))
  | reopened

section

variable {σ : Type} [EventStore σ]

/-- Makes a call of a store that `reopen` opens again. -/
def StoreCall.perform (reopen : σ → σ) (store : σ) : StoreCall → StoreAnswer × σ
  | append event =>
    let (answer, next) := (EventStore.append event : StoreM σ Record) store
    (.recorded answer, next)
  | readRun runId =>
    let (answer, next) := (EventStore.readRun runId : StoreM σ (List Record)) store
    (.listed answer, next)
  | readAll =>
    let (answer, next) := (EventStore.readAll : StoreM σ (List Record)) store
    (.listed answer, next)
  | readChain runId =>
    let (answer, next) := (EventStore.readChain runId : StoreM σ (List Record)) store
    (.listed answer, next)
  | .reopen => (.reopened, reopen store)

/-- The answers to some calls, made one after the other. -/
def answers (reopen : σ → σ) (store : σ) : List StoreCall → List StoreAnswer
  | [] => []
  | call :: rest =>
    (call.perform reopen store).1 :: answers reopen (call.perform reopen store).2 rest

end

/-! ## Answers from a log -/

/-- The log holds an event of this run with this identifier. -/
def Occupied (log : List Record) (runId eventId : String) : Prop :=
  ∃ r ∈ log, r.runId = runId ∧ r.eventId = eventId

instance (log : List Record) (runId eventId : String) : Decidable (Occupied log runId eventId) := by
  unfold Occupied; infer_instance

/-- The record that an event becomes behind a log. -/
def nextRecord (log : List Record) (event : Event) : Record :=
  (RunTip.ofRecords (recordsOfRun log event.runId)).recordNext (log.length + 1) event

/-- The answer to an event that is to be recorded behind a log. -/
def appendOn (log : List Record) (event : Event) : Except StoreError Record :=
  if Occupied log event.runId event.id then .error (.duplicateEvent event.id event.runId)
  else .ok (nextRecord log event)

/-- How a store that holds a log answers. -/
def answerOn (log : List Record) : StoreCall → StoreAnswer
  | .append event => .recorded (appendOn log event.normalized)
  | .readRun runId => .listed (.ok (Record.sortForReading (recordsOfRun log runId)))
  | .readAll => .listed (.ok (Record.sortForReading log))
  | .readChain runId => .listed (.ok (recordsOfRun log runId))
  | .reopen => .reopened

/-- The log behind a call. -/
def logAfter (log : List Record) : StoreCall → List Record
  | .append event =>
    match appendOn log event.normalized with
    | .ok r => log ++ [r]
    | .error _ => log
  | _ => log

/-! ## The store in memory -/

namespace MemoryStore

variable {store : MemoryStore} {log : List Record}

theorem Holds.sequence_eq (h : store.Holds log) : store.sequence = log.length := by
  have hlength := congrArg List.length h.places
  simpa using hlength.symm

theorem Holds.contains_iff (h : store.Holds log) (runId eventId : String) :
    (store.run runId).ids.contains eventId = true ↔ Occupied log runId eventId := by
  rw [List.contains_iff_mem, h.ids]
  rfl

theorem Holds.append_fst (h : store.Holds log) (event : Event) :
    (store.append event).1 = appendOn log event.normalized := by
  have hids := h.contains_iff event.normalized.runId event.normalized.id
  have hhead : (store.run event.normalized.runId).head =
      RunTip.ofRecords (recordsOfRun log event.normalized.runId) := h.head _
  unfold MemoryStore.append appendOn
  dsimp only
  split
  · rename_i htaken
    rw [if_pos (hids.mp htaken)]
  · rename_i hfree
    rw [if_neg (mt hids.mpr hfree), nextRecord, hhead, h.sequence_eq]

/-- A store in memory answers from the log that it holds. -/
theorem Holds.perform (h : store.Holds log) (call : StoreCall) :
    ∃ next, call.perform id store = (answerOn log call, next) ∧ next.Holds (logAfter log call) := by
  cases call with
  | append event =>
    have hanswer := h.append_fst event
    refine ⟨(store.append event).2, ?_, ?_⟩
    · rw [answerOn, ← hanswer]
      rfl
    · rw [logAfter, ← hanswer]
      rcases happend : store.append event with ⟨error | r, next⟩
      · rw [append_error happend]
        exact h
      · exact h.append happend
  | readRun runId =>
    refine ⟨store, ?_, h⟩
    rw [answerOn, recordsOfRun, ← h.run runId]
    rfl
  | readAll =>
    have hsorted : Record.sortForReading store.records = Record.sortForReading log :=
      Record.sortForReading_congr h.all ((h.all.map Record.sequence).nodup_iff.mpr h.places_nodup)
    refine ⟨store, ?_, h⟩
    rw [answerOn, ← hsorted]
    rfl
  | readChain runId =>
    refine ⟨store, ?_, h⟩
    rw [answerOn, recordsOfRun, ← h.run runId]
    rfl
  | reopen => exact ⟨store, rfl, h⟩

end MemoryStore

/-! ## The durable store -/

namespace DurableStore

variable {store : DurableStore} {log : List Record}

theorem Holds.append_fst_eq (h : store.Holds log) (hlegible : ∀ r ∈ log, r.Legible)
    (hroom : (log.length : Int) < lastPlace) (event : Event) :
    (store.append event).1 = appendOn log event.normalized := by
  rw [h.append_fst hlegible hroom, appendOn]
  by_cases htaken : Occupied log event.normalized.runId event.normalized.id
  · rw [if_pos (h.table.holds_iff.mpr htaken), if_pos htaken]
  · rw [if_neg (mt h.table.holds_iff.mp htaken), if_neg htaken, nextRecord]

/-- A durable store answers from the log that it holds while its records are legible and there is
room. -/
theorem Holds.perform (h : store.Holds log) (hlegible : ∀ r ∈ log, r.Legible) (call : StoreCall)
    (hroom : (log.length + call.places : Int) ≤ lastPlace) :
    ∃ next, call.perform DurableStore.reopen store = (answerOn log call, next) ∧
      next.Holds (logAfter log call) := by
  have hrun (runId : String) : ∀ r ∈ recordsOfRun log runId, r.Legible :=
    fun r hr => hlegible r (List.mem_of_mem_filter hr)
  cases call with
  | append event =>
    have hanswer := h.append_fst_eq hlegible (Int.lt_of_add_one_le hroom) event
    refine ⟨(store.append event).2, ?_, ?_⟩
    · rw [answerOn, ← hanswer]
      rfl
    · rw [logAfter, ← hanswer]
      rcases happend : store.append event with ⟨error | r, next⟩
      · exact h.append_error happend
      · exact h.append happend
  | readRun runId =>
    refine ⟨store, ?_, h⟩
    rw [answerOn, ← h.table.readRun_eq (hrun runId)]
    rfl
  | readAll =>
    refine ⟨store, ?_, h⟩
    rw [answerOn, ← h.table.readAll_eq hlegible]
    rfl
  | readChain runId =>
    refine ⟨store, ?_, h⟩
    rw [answerOn, ← h.table.readChain_eq (hrun runId)]
    rfl
  | reopen => exact ⟨store.reopen, rfl, h.reopen⟩

end DurableStore

/-! ## The same answers -/

/-- The event, as it is stored, is read back. -/
def StoreCall.Legible : StoreCall → Prop
  | .append event => event.normalized.HasPlainYears ∧ event.normalized.LeapsOnMinute ∧
      event.normalized.ConfidenceReadsBack
  | _ => True

/-- An event that holds no answer is read back if the text of its time is exact and that of its
confidence is read back. -/
theorem StoreCall.legible_append {event : Event}
    (hexact : event.normalized.timestamp.HasExactText)
    (hresolved : event.normalized.approval.resolvedAt = none)
    (hconfidence : event.normalized.ConfidenceReadsBack) : (append event).Legible :=
  ⟨.of_unanswered hexact.year hresolved, .of_unanswered hexact.minute hresolved, hconfidence⟩

theorem StoreCall.legible_append_of_none {event : Event}
    (hexact : event.normalized.timestamp.HasExactText)
    (hresolved : event.normalized.approval.resolvedAt = none)
    (hconfidence : event.normalized.confidence = none) : (append event).Legible :=
  legible_append hexact hresolved (Event.confidenceReadsBack_of_none hconfidence)

/-- The record of an event that is read back is read back. -/
theorem StoreCall.Legible.record {event : Event} {r : Record} (h : (append event).Legible)
    (hevent : r.event = event.normalized) : r.Legible where
  normal := hevent ▸ event.normalized_normalized
  years := hevent ▸ h.1
  leaps := hevent ▸ h.2.1
  confidence := hevent ▸ h.2.2

/-- A call adds no more records than it can take places. -/
theorem length_logAfter (log : List Record) (call : StoreCall) :
    (logAfter log call).length ≤ log.length + call.places := by
  cases call with
  | append event =>
    rw [logAfter]
    split <;> simp [StoreCall.places]
  | _ => exact Nat.le_refl _

/-- The records of a log stay legible when a legible event is recorded. -/
theorem legible_logAfter {log : List Record} {call : StoreCall}
    (hlog : ∀ r ∈ log, r.Legible) (hcall : call.Legible) : ∀ r ∈ logAfter log call, r.Legible := by
  cases call with
  | append event =>
    have hnext : (nextRecord log event.normalized).Legible := hcall.record rfl
    rw [logAfter]
    split
    · rename_i r happend
      unfold appendOn at happend
      split at happend
      · cases happend
      · intro x hx
        rcases List.mem_append.mp hx with hx | hx
        · exact hlog x hx
        · rw [List.mem_singleton.mp hx, ← Except.ok.inj happend]
          exact hnext
    · exact hlog
  | _ => exact hlog

theorem answers_eq_of_holds {memory : MemoryStore} {durable : DurableStore} {log : List Record}
    (hmemory : memory.Holds log) (hdurable : durable.Holds log)
    (hlog : ∀ r ∈ log, r.Legible) (calls : List StoreCall) (hcalls : ∀ call ∈ calls, call.Legible)
    (hroom : (log.length + (calls.map StoreCall.places).sum : Int) ≤ lastPlace) :
    answers DurableStore.reopen durable calls = answers id memory calls := by
  induction calls generalizing memory durable log with
  | nil => rfl
  | cons call rest ih =>
    have hcall := hcalls call List.mem_cons_self
    have hlength := length_logAfter log call
    rw [List.map_cons, List.sum_cons] at hroom
    obtain ⟨durable', hanswer, hheld⟩ := hdurable.perform hlog call (by omega)
    obtain ⟨memory', hanswer', hheld'⟩ := hmemory.perform call
    rw [answers, answers, hanswer, hanswer']
    refine congrArg (_ :: ·) ?_
    exact ih hheld' hheld (legible_logAfter hlog hcall)
      (fun c hc => hcalls c (List.mem_cons_of_mem call hc)) (by omega)

/-- A durable store that begins with an empty table answers like a store in memory, whatever is
asked of it in whatever order and however often it is opened again, as long as the times of all
events belong to years with four digits, their leap seconds end a minute, the texts of their
confidences are read back, and there are no more events than places. -/
theorem durable_answers_like_memory (calls : List StoreCall)
    (hlegible : ∀ call ∈ calls, call.Legible)
    (hroom : ((calls.map StoreCall.places).sum : Int) ≤ lastPlace) :
    answers DurableStore.reopen (.ofTable .empty) calls = answers id MemoryStore.empty calls := by
  refine answers_eq_of_holds MemoryStore.holds_empty DurableStore.holds_empty (by simp) calls
    hlegible ?_
  simpa using hroom

/-! ## A few calls -/

/-- One half. -/
def half : Decimal.Binary64 := ⟨false, 1022 * 2 ^ 52, by decide⟩

theorem readsBack_half : (Json.Number.real half).ReadsBack := by
  have htext : (Json.Number.real half).chars = '0' :: ['.', '5'] := by decide +kernel
  exact Json.Number.isReadAs_of_readNumber htext (by decide) (by decide +kernel)

/-- An action inside a leap second, of which its agent is half certain. -/
def leapAction : Event :=
  { Event.plain " leap " "run" ⟨59, 1500000000, by decide⟩ .action .agent "Wait"
      "One second more." with
    confidence := some half }

/-- An action before it. -/
def firstAction : Event := Event.plain "first" "run" .epoch .action .agent "Draft" "Drafted."

/-- A later event that is recorded first, an event that is recorded twice, and a store that is
opened again in between. -/
def leapCalls : List StoreCall :=
  [.append leapAction, .reopen, .append firstAction, .append leapAction, .reopen, .readAll,
    .readRun "run", .readChain "run"]

theorem leapCalls_are_answered_alike :
    (∀ call ∈ leapCalls, call.Legible) ∧
      ((leapCalls.map StoreCall.places).sum : Int) ≤ lastPlace ∧
      answers DurableStore.reopen (.ofTable .empty) leapCalls =
        answers id MemoryStore.empty leapCalls := by
  have hleap : (StoreCall.append leapAction).Legible := by
    refine StoreCall.legible_append (by decide +kernel) rfl fun x hx => ?_
    obtain rfl := Option.some.inj hx
    exact readsBack_half
  have hfirst : (StoreCall.append firstAction).Legible :=
    StoreCall.legible_append_of_none (by decide +kernel) rfl rfl
  have hlegible : ∀ call ∈ leapCalls, call.Legible := by
    simp only [leapCalls, List.forall_mem_cons]
    exact ⟨hleap, trivial, hfirst, hleap, trivial, trivial, trivial, trivial, by simp⟩
  exact ⟨hlegible, by decide, durable_answers_like_memory leapCalls hlegible (by decide)⟩

/-! ## A leap second off the minute -/

/-- Half a second into a leap second behind the first second of a minute, on 16 February 2026. -/
def offBeat : Time.Instant := ⟨1771246800, 1500000000, by decide⟩

/-- A fifth of a second into the second after it. -/
def nextBeat : Time.Instant := ⟨1771246801, 200000000, by decide⟩

/-- An action at each of them, with the file opened again in between. -/
def beatCalls : List StoreCall :=
  [.append (Event.plain "beat" "run" offBeat .action .agent "Beat" "Off the beat."), .reopen,
    .append (Event.plain "next" "run" nextBeat .action .agent "Beat" "On the beat.")]

/-- Whether an event was recorded with a mark. -/
def StoreAnswer.isMarked : StoreAnswer → Bool
  | recorded (.ok r) => r.integrityWarning
  | _ => false

/-- The durable store marks the later action for being the earlier one. -/
theorem beatCalls_are_answered_otherwise :
    (∀ event, StoreCall.append event ∈ beatCalls →
      event.normalized.HasPlainYears ∧ event.normalized.confidence = none) ∧
    (answers DurableStore.reopen (.ofTable .empty) beatCalls).map StoreAnswer.isMarked =
      [false, false, true] ∧
    (answers id MemoryStore.empty beatCalls).map StoreAnswer.isMarked = [false, false, false] := by
  refine ⟨fun event hevent => ?_, by decide +kernel, by decide +kernel⟩
  simp only [beatCalls, List.mem_cons, StoreCall.append.injEq, reduceCtorEq, List.not_mem_nil,
    or_false, false_or] at hevent
  rcases hevent with rfl | rfl
  · exact ⟨.of_unanswered (by decide +kernel) rfl, rfl⟩
  · exact ⟨.of_unanswered (by decide +kernel) rfl, rfl⟩

end RunLedger
