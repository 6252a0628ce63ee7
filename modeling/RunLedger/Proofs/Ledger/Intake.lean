/-
  Proofs/Ledger/Intake.lean --- what is taken in stays as it was taken in.

  WHAT THIS FILE IS FOR.  An event is trimmed and checked when its document is
  submitted, trimmed and checked again by the ledger, trimmed once more by the
  store, and decoded again whenever it is read.  Only the first of these changes
  it: an event that a document stands for is normalized and sound, its payload
  stands for it again, and both stores record it as it is.  What is stored on a
  table is the text of the payload, and there a confidence can become another
  number, because reading rounds the digits in steps.
-/
import RunLedger.Proofs.Ledger.Legible
import RunLedger.Proofs.Ledger.TerminalLock

set_option autoImplicit false

namespace RunLedger

open RunLedger.Decimal (Binary64)

/-! ## Submitting a payload -/

/-- The payload of a normalized and sound event stands for the event. -/
theorem Event.ofSubmission?_payload {event : Event} (hnormal : event.normalized = event)
    (hsound : event.problems = []) (hyears : event.HasPlainYears) (hleaps : event.LeapsOnMinute) :
    ofSubmission? event.payload = .ok event := by
  rw [ofSubmission?, ofJson?, decode_payload .value hnormal hyears,
    asWritten_of_leapsOnMinute hleaps]
  dsimp only
  rw [hnormal, hsound]

/-! ## Recording -/

/-- A row is read as the record that it was made of, with the event that its text is read as. -/
theorem Row.toRecord?_ofRecord_ok {r : Record} {event : Event}
    (h : Event.ofText? r.event.payload.canonical = .ok event) (mark : Bool) :
    (ofRecord r).toRecord? mark = .ok { r with event := event, integrityWarning := mark } := by
  have hplace : ¬ (r.sequence : Int) < 0 := by omega
  unfold toRecord? ofRecord
  dsimp only
  rw [if_neg hplace, h]
  rfl

/-- A table with one record lists it with the event that its text is read as. -/
theorem Table.Holds.readAll_singleton {table : Table} {r : Record} {event : Event}
    (h : table.Holds [r]) (hread : Event.ofText? r.event.payload.canonical = .ok event) :
    table.readAll = .ok [{ r with event := event }] := by
  have hrow : (Row.ofRecord r).ReadsAs { r with event := event } :=
    ⟨_, Row.toBool?_ofRecord r, Row.toRecord?_ofRecord_ok hread _⟩
  rw [readAll, h.rows, List.map_singleton, List.mergeSort_singleton]
  exact recordsOf_cons_eq_ok_iff.mpr ⟨_, [], hrow, rfl, rfl⟩

namespace Ledger

variable {event : Event} {r : Record}

/-- A store in memory records the event as it is after trimming. -/
theorem event_of_submit_memory {ledger next : Ledger MemoryStore}
    (h : submit event ledger = (.ok r, next)) : r.event = event.normalized := by
  obtain ⟨history, middle, -, happend⟩ := exists_append_of_submit h
  have hstore : middle.store.append event.normalized = (.ok r, next.store) := eq_ok_of_call happend
  rw [(MemoryStore.recorded hstore).1, Event.normalized_normalized]

/-- A table does, too, and the row that it gets has the text of its payload. -/
theorem event_of_submit_table {ledger next : Ledger DurableStore}
    (h : submit event ledger = (.ok r, next)) :
    r.event = event.normalized ∧
      ∃ row ∈ next.store.table.rows, row.payload = event.normalized.payload.canonical := by
  obtain ⟨history, middle, -, happend⟩ := exists_append_of_submit h
  have hstore : middle.store.append event.normalized = (.ok r, next.store) := eq_ok_of_call happend
  obtain ⟨head, place, -, -, -, -, hnext⟩ := DurableStore.append_eq_ok hstore
  have hevent := event_of_submit h
  refine ⟨hevent, Row.ofRecord r, ?_, ?_⟩
  · rw [hnext]
    exact List.mem_append_right _ List.mem_cons_self
  · rw [← hevent]
    rfl

end Ledger

/-! ## The way of an event -/

/-- Nothing on the way of the event changes it. -/
structure Event.StaysItself (event : Event) : Prop where
  normal : event.normalized = event
  sound : event.problems = []
  /-- its payload, submitted, stands for it -/
  payload : ofSubmission? event.payload = .ok event
  memory : ∀ (ledger next : Ledger MemoryStore) (r : Record),
    Ledger.submit event ledger = (.ok r, next) → r.event = event
  table : ∀ (ledger next : Ledger DurableStore) (r : Record),
    Ledger.submit event ledger = (.ok r, next) →
      r.event = event ∧ ∃ row ∈ next.store.table.rows, row.payload = event.payload.canonical
  /-- the text of its payload is read as the event with the confidence that its text is read as -/
  stored : ∀ g : Binary64 → Binary64,
    (∀ x ∈ event.confidence, (Json.Number.real x).IsReadAs (.real (g x))) →
      ofText? event.payload.canonical = .ok (event.mapConfidence g)

namespace Ledger

/-- A document that stands for an event with plain years is submitted as the event is, and so is the
payload of the event; from then on the event stays as it is.  In particular the text that is stored
for it is decoded as the event if the text of its confidence is read back. -/
theorem accepted_event_stays_itself {value : Json} {event : Event}
    (h : Event.ofSubmission? value = .ok event) (hyears : event.HasPlainYears) :
    (∀ {σ : Type} [EventStore σ], (submitDocument value : LedgerM σ Record) = submit event ∧
      (submitDocument event.payload : LedgerM σ Record) = submit event) ∧
    event.StaysItself ∧
    (event.ConfidenceReadsBack → Event.ofText? event.payload.canonical = .ok event) := by
  obtain ⟨hnormal, hsound⟩ := Event.normalized_of_ofSubmission? h
  have hleaps := Event.leapsOnMinute_of_ofSubmission? h
  have hwritten := Event.asWritten_of_leapsOnMinute hleaps
  have hpayload := Event.ofSubmission?_payload hnormal hsound hyears hleaps
  refine ⟨fun {σ} _ => ⟨?_, ?_⟩, ⟨hnormal, hsound, hpayload, ?_, ?_, ?_⟩, ?_⟩
  · rw [submitDocument, h]
  · rw [submitDocument, hpayload]
  · intro ledger next r hsubmit
    rw [event_of_submit_memory hsubmit, hnormal]
  · intro ledger next r hsubmit
    have hrecorded := event_of_submit_table hsubmit
    rwa [hnormal] at hrecorded
  · intro g hconfidence
    rw [Event.ofText?_payload_eq hnormal hconfidence hyears, hwritten]
  · intro hconfidence
    rw [Event.ofText?_payload hnormal hconfidence hyears, hwritten]

/-- The action inside a leap second as it may be written: finer than a microsecond, and by a clock
that is ahead of UTC. -/
def leapDraft : Event :=
  { leapAction with timestamp := ⟨59, 1500000700, by decide⟩ }

theorem leap_action_stays_itself :
    Event.ofSubmission? (.object (leapDraft.membersAt "1970-01-01T05:45:60.5000007+05:45")) =
        .ok leapAction.normalized ∧
      leapAction.normalized.StaysItself ∧
      Event.ofText? leapAction.normalized.payload.canonical = .ok leapAction.normalized := by
  have hraw : Time.Instant.parse? "1970-01-01T05:45:60.5000007+05:45" =
      some leapDraft.timestamp := by decide +kernel
  have hdecode : Event.ofJson? (.object (leapDraft.membersAt "1970-01-01T05:45:60.5000007+05:45")) =
      .ok leapDraft :=
    Event.decode_membersAt .value hraw (by simp [leapDraft, leapAction, Event.plain,
      Approval.notRequired])
  have hnormal : leapDraft.normalized = leapAction.normalized := by decide +kernel
  have hproblems : leapAction.normalized.problems = [] := by decide +kernel
  have hvalue : Event.ofSubmission? (.object
      (leapDraft.membersAt "1970-01-01T05:45:60.5000007+05:45")) = .ok leapAction.normalized := by
    rw [Event.ofSubmission?, hdecode]
    dsimp only
    rw [hnormal, hproblems]
  have hyears : leapAction.normalized.HasPlainYears :=
    ⟨by decide +kernel, by simp [leapAction, Event.plain, Approval.notRequired, Event.normalized]⟩
  have hconfidence : leapAction.normalized.ConfidenceReadsBack := by
    intro x hx
    obtain rfl : half = x := Option.some.inj hx
    exact readsBack_half
  obtain ⟨-, hstays, hstored⟩ := accepted_event_stays_itself hvalue hyears
  exact ⟨hvalue, hstays, hstored hconfidence⟩

/-! ## A confidence that becomes another one -/

/-- A confidence of about 6.6e-10. -/
def faint : Binary64 := ⟨false, 4469452530335795716, by decide⟩

/-- Its lower neighbour, as which it is read. -/
def fainter : Binary64 := ⟨false, 4469452530335795715, by decide⟩

theorem isReadAs_faint : (Json.Number.real faint).IsReadAs (.real fainter) := by
  -- The shortest text of the number is read with one rounding too many.
  have htext : (Json.Number.real faint).chars = '6' :: ".602245055107713e-10".toList := by
    decide +kernel
  exact Json.Number.isReadAs_of_readNumber htext (by decide) (by decide +kernel)

/-- An action of which its agent is hardly certain. -/
def faintAction : Event :=
  { Event.plain "faint" "run" .epoch .action .agent "Draft" "Drafted." with
    confidence := some faint }

/-- The document of the action is accepted with plain years, and the record that comes back holds the
action; but the table lists another confidence. -/
theorem faint_confidence_is_read_as_another :
    ∃ r next, (submitDocument (.object (faintAction.membersAt "1970-01-01T00:00:00Z")) :
        LedgerM DurableStore Record) onTable = (.ok r, next) ∧
      r.event = faintAction ∧ faintAction.HasPlainYears ∧
      next.store.table.readAll =
        .ok [{ r with event := { faintAction with confidence := some fainter } }] ∧
      faintAction.confidence ≠ some fainter := by
  have hraw : Time.Instant.parse? "1970-01-01T00:00:00Z" = some faintAction.timestamp := by
    decide +kernel
  have hdecode : Event.ofJson? (.object (faintAction.membersAt "1970-01-01T00:00:00Z")) =
      .ok faintAction :=
    Event.decode_membersAt .value hraw (by simp [faintAction, Event.plain, Approval.notRequired])
  have hnormal : faintAction.normalized = faintAction := by decide +kernel
  have hproblems : faintAction.problems = [] := by decide +kernel
  have hvalue : Event.ofSubmission? (.object (faintAction.membersAt "1970-01-01T00:00:00Z")) =
      .ok faintAction := by
    rw [Event.ofSubmission?, hdecode]
    dsimp only
    rw [hnormal, hproblems]
  have hyears : faintAction.HasPlainYears :=
    .of_unanswered (by decide +kernel) rfl
  obtain ⟨next, hsubmit, hholds⟩ :=
    exists_submit_first faintAction (by decide +kernel) (by decide +kernel)
  rw [hnormal] at hsubmit hholds
  refine ⟨nextRecord [] faintAction, next, ?_, rfl, hyears, ?_, by decide⟩
  · rw [submitDocument, hvalue]
    exact hsubmit
  · have hread : Event.ofText? faintAction.payload.canonical =
        .ok (faintAction.mapConfidence fun _ => fainter) := by
      refine Event.ofText?_payload_eq hnormal (fun x hx => ?_) hyears
      obtain rfl : faint = x := Option.some.inj hx
      exact isReadAs_faint
    exact hholds.table.readAll_singleton hread

end Ledger

end RunLedger
