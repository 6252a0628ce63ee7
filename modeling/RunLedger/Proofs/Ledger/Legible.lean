/-
  Proofs/Ledger/Legible.lean --- what a ledger on a table has recorded can be read.

  WHAT THIS FILE IS FOR.  A ledger decides on an event as it was handed in, and
  every later request reads the text that was stored for it.  So a recorded event
  that is not legible stands in the way of all requests that read its row.  What
  the requests of a ledger on a table have recorded is a log; all of it can be read
  as long as each event of it is legible, and a time in a year without four digits
  makes the listing of all runs fail.

  Leap seconds off the minute, which are read as other instants, do not come from
  documents, nor from what is read of the table.  So none is recorded unless a
  caller, a clock or a strategy brings one.
-/
import RunLedger.Proofs.Approval.Outcome
import RunLedger.Proofs.Ledger.Operation
import RunLedger.Proofs.Store.Refinement

set_option autoImplicit false

namespace RunLedger

open RunLedger.Time (Instant)

/-! ## What a table has taken -/

namespace DurableStore

/-- The store `s` has been handed events and has become `t`; the records that came back, in this
order, are `added`. -/
inductive Grows (s : DurableStore) : (added : List Record) → (t : DurableStore) → Prop where
  | refl : Grows s [] s
  | refused {added : List Record} {t u : DurableStore} {event : Event} {error : StoreError} :
    Grows s added t → t.append event = (.error error, u) → Grows s added u
  | recorded {added : List Record} {t u : DurableStore} {event : Event} {r : Record} :
    Grows s added t → t.append event = (.ok r, u) → Grows s (added ++ [r]) u

namespace Grows

variable {s t u : DurableStore} {added more log : List Record}

theorem trans (hfirst : s.Grows added t) (hrest : t.Grows more u) : s.Grows (added ++ more) u := by
  induction hrest with
  | refl =>
    rw [List.append_nil]
    exact hfirst
  | refused _ happend ih => exact .refused ih happend
  | recorded _ happend ih =>
    rw [← List.append_assoc]
    exact .recorded ih happend

/-- The records that came back are put behind the log. -/
theorem holds (h : s.Grows added t) (hs : s.Holds log) : t.Holds (log ++ added) := by
  induction h with
  | refl =>
    rw [List.append_nil]
    exact hs
  | refused _ happend ih => exact ih.append_error happend
  | recorded _ happend ih =>
    rw [← List.append_assoc]
    exact ih.append happend

end Grows

/-- The event of a record is the one that was handed in, normalized. -/
theorem event_of_append {s t : DurableStore} {event : Event} {r : Record}
    (h : s.append event = (.ok r, t)) : r.event = event.normalized := by
  obtain ⟨head, place, -, -, -, rfl, -⟩ := append_eq_ok h
  rfl

/-- The store is handed an event that, normalized, is dated by times of a kind. -/
def Steps (dates : Instant → Prop) (s t : DurableStore) : Prop :=
  ∃ event : Event, event.normalized.DatedBy dates ∧ t = (s.append event).2

theorem exists_grows {dates : Instant → Prop} {s t : DurableStore}
    (h : Relation.ReflTransGen (Steps dates) s t) :
    ∃ added, s.Grows added t ∧ ∀ r ∈ added, r.event.DatedBy dates := by
  induction h with
  | refl => exact ⟨[], .refl, by simp⟩
  | @tail t u _ hstep ih =>
    obtain ⟨added, hgrows, hdated⟩ := ih
    obtain ⟨event, hevent, hu⟩ := hstep
    rcases happend : t.append event with ⟨error | r, next⟩
    · rw [happend] at hu
      exact ⟨added, hu ▸ .refused hgrows happend, hdated⟩
    · rw [happend] at hu
      refine ⟨added ++ [r], hu ▸ .recorded hgrows happend, fun x hx => ?_⟩
      rcases List.mem_append.mp hx with hx | hx
      · exact hdated x hx
      · rw [List.mem_singleton.mp hx, event_of_append happend]
        exact hevent

/-- All that requests read of the store can be read, and says what the log says. -/
structure ReadsBack (store : DurableStore) (log : List Record) : Prop where
  all : store.table.readAll = .ok (Record.sortForReading log)
  run : ∀ runId, store.table.readRun runId = .ok (Record.sortForReading (recordsOfRun log runId))
  chain : ∀ runId, store.table.readChain runId = .ok (recordsOfRun log runId)
  head : ∀ runId, store.handle.head store.table runId =
    .ok (RunTip.ofRecords (recordsOfRun log runId))

theorem Holds.readsBack {store : DurableStore} {log : List Record} (h : store.Holds log)
    (hlegible : ∀ r ∈ log, r.Legible) : store.ReadsBack log where
  all := h.table.readAll_eq hlegible
  run _ := h.table.readRun_eq fun r hr => hlegible r (List.mem_of_mem_filter hr)
  chain _ := h.table.readChain_eq fun r hr => hlegible r (List.mem_of_mem_filter hr)
  head := h.head_eq hlegible

/-- While the confidences are read back, the listing of all runs succeeds exactly if all times
belong to years with four digits. -/
theorem Holds.readAll_iff {store : DurableStore} {log : List Record} (h : store.Holds log)
    (hconfidence : ∀ r ∈ log, r.event.ConfidenceReadsBack) :
    (∃ records, store.table.readAll = .ok records) ↔ ∀ r ∈ log, r.event.HasPlainYears := by
  constructor
  · rintro ⟨records, hread⟩ r hr
    obtain ⟨f, hf⟩ := Table.exists_readBy hread
    have hrow : Row.ofRecord r ∈ store.table.rows := by
      rw [h.table.rows]
      exact List.mem_map_of_mem hr
    exact Event.hasPlainYears_of_ofText? (hconfidence r hr) (hf _ hrow).ofText?
  · intro hyears
    refine ⟨_, h.table.asWritten.readAll_eq fun written hwritten => ?_⟩
    obtain ⟨r, hr, rfl⟩ := List.mem_map.mp hwritten
    exact Record.legible_asWritten (h.normal r hr) (hyears r hr) (hconfidence r hr)

end DurableStore

/-! ## Requests -/

/-- The reply speaks of the record: it is the record itself, or names its event and its run. -/
def Reply.Describes : Reply → Record → Prop
  | .recorded r', r => r' = r
  | .registered registration, r =>
    registration.eventId = r.eventId ∧ registration.runId = r.runId ∧
      registration.requestedAt = r.timestamp
  | .resolved outcome, r => outcome.eventId = r.eventId ∧ outcome.runId = r.runId

namespace Ledger

section

variable {σ α : Type} {ledger next : Ledger σ} {a : α}

theorem eq_ok_of_call {c : StoreM σ α} (h : call c ledger = (.ok a, next)) :
    c ledger.store = (.ok a, next.store) := by
  unfold call at h
  split at h
  · rename_i b store hrun
    obtain ⟨hb, rfl⟩ := Prod.mk.inj h
    rw [hrun, Except.ok.inj hb]
  · cases (Prod.mk.inj h).1

theorem adapt_eq_ok_iff {x : LedgerM σ α} {g : RequestError → RequestError} :
    (ExceptT.adapt g x : LedgerM σ α) ledger = (.ok a, next) ↔ x ledger = (.ok a, next) := by
  have hadapt : (ExceptT.adapt g x : LedgerM σ α) ledger =
      ((x ledger).1.mapError g, (x ledger).2) := rfl
  rw [hadapt]
  rcases x ledger with ⟨error | b, final⟩
  · constructor <;> exact fun h => nomatch (Prod.mk.inj h).1
  · rfl

/-- What is answered with a value that is made of an answer. -/
theorem exists_of_bind_pure {β : Type} {x : LedgerM σ α} {f : α → β} {b : β}
    (h : (x >>= fun a => pure (f a)) ledger = (.ok b, next)) :
    ∃ a, x ledger = (.ok a, next) ∧ f a = b := by
  obtain ⟨a, middle, hrun, hreturn⟩ := bind_eq_ok_iff.mp h
  obtain ⟨hb, rfl⟩ := Prod.mk.inj hreturn
  exact ⟨a, hrun, Except.ok.inj hb⟩

variable [EventStore σ] {event : Event} {r : Record}

/-- An accepted event is handed to the store as it was after the history of its run was read. -/
theorem exists_append_of_submit (h : submit event ledger = (.ok r, next)) :
    ∃ history middle, call (EventStore.readRun event.normalized.runId) ledger =
        (.ok history, middle) ∧
      call (EventStore.append event.normalized) middle = (.ok r, next) := by
  unfold submit at h
  cases hproblems : event.normalized.problems with
  | cons problem rest =>
    rw [hproblems] at h
    cases (Prod.mk.inj h).1
  | nil =>
    rw [hproblems] at h
    obtain ⟨history, middle, hread, hrest⟩ := bind_eq_ok_iff.mp h
    cases hviolations : Gate.violations event.normalized history with
    | cons violation rest =>
      rw [hviolations] at hrest
      cases (Prod.mk.inj hrest).1
    | nil =>
      rw [hviolations] at hrest
      exact ⟨history, middle, hread, hrest⟩

variable {step : σ → σ → Prop} {dates : Instant → Prop}

/-- A registration is recorded by one submission. -/
theorem exists_submit_of_register (hsteps : DatedStepsOf σ step dates) {around : Surroundings}
    (hnow : ∀ n, dates (around.now n)) {request : ApprovalRequest} {registration : Registration}
    (h : register around request ledger = (.ok registration, next)) :
    ∃ event before r, event.DatedBy dates ∧
      Relation.ReflTransGen step ledger.store before.store ∧
      submit event before = (.ok r, next) ∧ (Reply.registered registration).Describes r := by
  unfold register at h
  dsimp only at h
  by_cases hblank : Text.trim request.decisionId = ""
  · rw [if_pos hblank, throw_bind] at h
    cases (Prod.mk.inj h).1
  · rw [if_neg hblank] at h
    obtain ⟨records, listed, hlisted, h⟩ := bind_eq_ok_iff.mp h
    obtain ⟨_, checked, hchecked, h⟩ := bind_eq_ok_iff.mp h
    obtain ⟨history, opened, hopened, h⟩ := bind_eq_ok_iff.mp h
    obtain ⟨_, _, hclock, h⟩ := bind_eq_ok_iff.mp h
    cases hclock
    obtain ⟨_, _, htoken, h⟩ := bind_eq_ok_iff.mp h
    cases htoken
    obtain ⟨r, final, hsubmit, h⟩ := bind_eq_ok_iff.mp h
    cases h
    have hbefore := (((hsteps.recordsOfDecision _).changes.of_run hlisted).trans
      ((Runs.refuseRepetition _ records).changes.of_run hchecked)).trans
      ((hsteps.runs_readRun _).changes.of_run hopened)
    have hevent := request.datedBy_toEvent
      (hsteps.timeAfter (hsteps.run _ _ _ _ hopened) (hnow (opened.drawn + 1)))
      (around.token (opened.drawn + 1))
    exact ⟨_, { opened with drawn := opened.drawn + 1 }, r, hevent, hbefore,
      adapt_eq_ok_iff.mp hsubmit, rfl, rfl, rfl⟩

/-- An answer is recorded by one submission, and what follows comes after it. -/
theorem exists_submit_of_resolve (hsteps : DatedStepsOf σ step dates) {strategies : Strategies σ}
    (hdescribe : strategies.OnlyDescribe) (hstrategies : strategies.DatedBy dates)
    {around : Surroundings} (hnow : ∀ n, dates (around.now n)) {target : ApprovalTarget}
    {resolution : Resolution} {outcome : Outcome}
    (h : resolve strategies around target resolution ledger = (.ok outcome, next)) :
    ∃ event before r after, event.DatedBy dates ∧
      Relation.ReflTransGen step ledger.store before.store ∧
      submit event before = (.ok r, after) ∧
      Relation.ReflTransGen step after.store next.store ∧ (Reply.resolved outcome).Describes r := by
  have houtcome : Outcome.ofAnswer? (resolve strategies around target resolution ledger).1 =
      some outcome := by
    rw [h]
    rfl
  obtain ⟨eventId, found, asked, recorded, status, submitted, hfound, hrecorded, hnames⟩ :=
    exists_recorded_of_outcome houtcome
  obtain ⟨history, opened, hopen, hsubmit⟩ := exists_of_recordAnswer hrecorded
  have hbefore := ((hsteps.targetEvent target).changes.of_run hfound).trans
    ((hsteps.openRequest eventId).changes.of_run hopen)
  obtain ⟨hasked, hanswered⟩ := hsteps.gives_recordAnswer hnow eventId resolution _ _ _ hrecorded
  have hevent := resolution.datedBy_toEvent asked
    (hsteps.timeAfter (hsteps.gives_openRequest eventId _ _ _ hopen).2 (hnow (opened.drawn + 1)))
    (around.token (opened.drawn + 1))
  rw [resolve_of_recorded hfound hrecorded] at h
  have hafter := (hsteps.conclude hnow (hdescribe.changeBy step) hstrategies hasked hanswered status
    resolution.answer).changes.of_run h
  exact ⟨_, { opened with drawn := opened.drawn + 1 }, recorded, submitted, hevent, hbefore,
    hsubmit, hafter, hnames.answer, hnames.run⟩

/-- A request that is answered has recorded the event that its reply speaks of. -/
theorem exists_submit_of_answer (hsteps : DatedStepsOf σ step dates) (call : Call σ)
    (hdated : call.operation.DatedBy dates) {reply : Reply} (hanswer : call.answer = .ok reply) :
    ∃ event before r after, event.DatedBy dates ∧
      Relation.ReflTransGen step call.ledger.store before.store ∧
      submit event before = (.ok r, after) ∧
      Relation.ReflTransGen step after.store call.next.store ∧ reply.Describes r := by
  obtain ⟨ledger, operation⟩ := call
  have hrun : operation.perform ledger = (.ok reply, (Call.mk ledger operation).next) :=
    Prod.ext hanswer rfl
  cases operation with
  | submit event =>
    obtain ⟨r, hsubmit, rfl⟩ := exists_of_bind_pure hrun
    exact ⟨event, ledger, r, _, hdated, .refl, hsubmit, .refl, rfl⟩
  | submitDocument value =>
    obtain ⟨r, hsubmit, rfl⟩ := exists_of_bind_pure hrun
    rw [submitDocument] at hsubmit
    cases hvalue : Event.ofSubmission? value with
    | ok event =>
      rw [hvalue] at hsubmit
      exact ⟨event, ledger, r, _, hdated event hvalue, .refl, hsubmit, .refl, rfl⟩
    | error problems =>
      rw [hvalue] at hsubmit
      cases (Prod.mk.inj hsubmit).1
  | register around request =>
    obtain ⟨registration, hregister, rfl⟩ := exists_of_bind_pure hrun
    obtain ⟨event, before, r, hevent, hbefore, hsubmit, hdescribes⟩ :=
      exists_submit_of_register hsteps hdated hregister
    exact ⟨event, before, r, _, hevent, hbefore, hsubmit, .refl, hdescribes⟩
  | resolve strategies describe around target resolution =>
    obtain ⟨outcome, hresolve, rfl⟩ := exists_of_bind_pure hrun
    exact exists_submit_of_resolve hsteps describe hdated.2 hdated.1 hresolve

end

/-! ## Requests to a ledger on a table -/

/-- A fresh ledger on a fresh table. -/
def onTable : Ledger DurableStore := .on (.ofTable .empty)

section

variable {ledger next : Ledger DurableStore} {event : Event} {r : Record}

/-- Reading the history of a run leaves the store as it is. -/
theorem readRun_snd_store (runId : String) (ledger : Ledger DurableStore) :
    (call (EventStore.readRun runId) ledger).2.store = ledger.store :=
  call_snd_store _ ledger

/-- A submission hands the event to the store, or does nothing to it. -/
theorem submit_snd_store (event : Event) (ledger : Ledger DurableStore) :
    (submit event ledger).2.store = ledger.store ∨
      (submit event ledger).2.store = (ledger.store.append event.normalized).2 := by
  unfold submit
  cases event.normalized.problems with
  | cons problem rest => exact .inl rfl
  | nil =>
    dsimp only
    rw [bind_apply]
    have hkeeps := readRun_snd_store event.normalized.runId ledger
    rcases hread : call (EventStore.readRun event.normalized.runId) ledger with
      ⟨error | history, middle⟩
    · rw [hread] at hkeeps
      exact .inl hkeeps
    · rw [hread] at hkeeps
      dsimp only at hkeeps ⊢
      cases Gate.violations event.normalized history with
      | cons violation rest => exact .inl hkeeps
      | nil =>
        refine .inr ?_
        rw [call_snd_store, hkeeps]
        rfl

/-- The event of an accepted record is the one that was submitted, normalized. -/
theorem event_of_submit (h : submit event ledger = (.ok r, next)) : r.event = event.normalized := by
  obtain ⟨history, middle, -, happend⟩ := exists_append_of_submit h
  rw [DurableStore.event_of_append (eq_ok_of_call happend), Event.normalized_normalized]

/-- A table keeps to a kind of times that is not left when time is counted on, if it includes what
is read. -/
theorem datedStepsOf_append {dates : Instant → Prop} (hread : ∀ t : Instant, t.OnMinute → dates t)
    (htoMicros : ∀ t, dates t → dates t.toMicros)
    (haddMillis : ∀ t millis, dates t → dates (t.addMillis millis)) :
    DatedStepsOf DurableStore (DurableStore.Steps dates) dates where
  readRun runId ledger := by rw [readRun_snd_store]
  readAll ledger := by rw [call_snd_store]; exact .refl
  run runId ledger records next hrun r hr :=
    (leapsOnMinute_of_recordsOf (congrArg Prod.fst (eq_ok_of_call hrun)) r hr).imp hread
  all ledger records next hrun r hr :=
    (leapsOnMinute_of_recordsOf (congrArg Prod.fst (eq_ok_of_call hrun)) r hr).imp hread
  submit event hevent ledger := by
    rcases submit_snd_store event ledger with h | h
    · rw [h]
    · refine .single ⟨event.normalized, ?_, h⟩
      rw [event.normalized_normalized]
      exact hevent.normalized htoMicros
  recorded event hevent ledger r next hrun := by
    show r.event.DatedBy dates
    rw [event_of_submit hrun]
    exact hevent.normalized htoMicros
  toMicros := htoMicros
  addMillis := haddMillis

/-- An accepted event is the one record that a submission adds. -/
theorem grows_of_submit (h : submit event ledger = (.ok r, next)) :
    ledger.store.Grows [r] next.store := by
  obtain ⟨history, middle, hread, happend⟩ := exists_append_of_submit h
  have hkeeps := readRun_snd_store event.normalized.runId ledger
  rw [hread] at hkeeps
  have hstore : middle.store.append event.normalized = (.ok r, next.store) := eq_ok_of_call happend
  rw [hkeeps] at hstore
  exact .recorded .refl hstore

end

/-! ### While the log is legible -/

section

variable {ledger : Ledger DurableStore} {log : List Record}

/-- What is read of a run, while the log is legible. -/
theorem readRun_of_holds (h : ledger.store.Holds log) (hlegible : ∀ r ∈ log, r.Legible)
    (runId : String) :
    call (EventStore.readRun runId) ledger =
      (.ok (Record.sortForReading (recordsOfRun log runId)), ledger) := by
  have hrun : (EventStore.readRun runId : StoreM DurableStore (List Record)) ledger.store =
      (.ok (Record.sortForReading (recordsOfRun log runId)), ledger.store) :=
    congrArg (·, ledger.store)
      (h.table.readRun_eq fun r hr => hlegible r (List.mem_of_mem_filter hr))
  unfold call
  rw [hrun]

/-- An event that has no problems and breaks no rules is answered as the log says, while the log is
legible and there is room. -/
theorem exists_submit_of_holds (h : ledger.store.Holds log) (hlegible : ∀ r ∈ log, r.Legible)
    (hroom : (log.length : Int) < lastPlace) {event : Event}
    (hproblems : event.normalized.problems = [])
    (hgate : Gate.violations event.normalized
      (Record.sortForReading (recordsOfRun log event.normalized.runId)) = []) :
    ∃ next, submit event ledger =
        ((appendOn log event.normalized).mapError RequestError.store, next) ∧
      next.store = (ledger.store.append event.normalized).2 := by
  have hanswer := h.append_fst_eq hlegible hroom event.normalized
  rw [Event.normalized_normalized] at hanswer
  unfold submit
  rw [hproblems]
  dsimp only
  rw [bind_apply, readRun_of_holds h hlegible]
  dsimp only
  rw [hgate]
  dsimp only
  refine ⟨(call (EventStore.append event.normalized) ledger).2, Prod.ext ?_ rfl,
    call_snd_store _ ledger⟩
  rw [← hanswer]
  exact call_fst _ ledger

/-- An event that has no problems and may begin a run is recorded on a fresh table. -/
theorem exists_submit_first (event : Event) (hproblems : event.normalized.problems = [])
    (hgate : Gate.violations event.normalized [] = []) :
    ∃ next, submit event onTable = (.ok (nextRecord [] event.normalized), next) ∧
      next.store.Holds [nextRecord [] event.normalized] := by
  have hnone : Record.sortForReading [] = [] := List.mergeSort_nil
  have hempty : onTable.store.Holds [] := DurableStore.holds_empty
  obtain ⟨next, hsubmit, -⟩ :=
    exists_submit_of_holds hempty (by simp) (by decide) hproblems (hnone.symm ▸ hgate)
  rw [appendOn, if_neg (by simp [Occupied])] at hsubmit
  exact ⟨next, hsubmit, (grows_of_submit hsubmit).holds hempty⟩

end

end Ledger

/-- The request brings no leap second off the minute.  A document cannot. -/
def Operation.LeapsOnMinute {σ : Type} : Operation σ → Prop
  | submit event => event.LeapsOnMinute
  | submitDocument _ => True
  | register around _ => ∀ n, (around.now n).OnMinute
  | resolve strategies _ around _ _ =>
    (∀ n, (around.now n).OnMinute) ∧ strategies.DatedBy Instant.OnMinute

theorem Operation.LeapsOnMinute.datedBy {σ : Type} {operation : Operation σ}
    (h : operation.LeapsOnMinute) : operation.DatedBy Instant.OnMinute := by
  cases operation with
  | submitDocument value => exact fun event hvalue => Event.leapsOnMinute_of_ofSubmission? hvalue
  | _ => exact h

/-- An answer brings none by a clock that shows none, with the strategies that are there from the
start. -/
theorem Operation.leapsOnMinute_standard {σ : Type} {around : Surroundings}
    (hnow : ∀ n, (around.now n).OnMinute) (target : ApprovalTarget) (resolution : Resolution) :
    (Operation.resolve .standard Strategies.onlyDescribe_standard around target resolution :
      Operation σ).LeapsOnMinute :=
  ⟨hnow, Strategies.datedBy_standard fun _ millis h => Instant.onMinute_addMillis h millis⟩

/-- A request has put the records `added` behind the records `log`, the one that its reply speaks of
among them; and what there is can be read as far as it is legible. -/
structure Call.Adds (call : Call DurableStore) (reply : Reply) (log added : List Record) :
    Prop where
  grows : call.ledger.store.Grows added call.next.store
  described : ∃ r ∈ added, reply.Describes r
  /-- the listing of all runs succeeds if all years have four digits, and only then -/
  listed : (∀ r ∈ log ++ added, r.event.ConfidenceReadsBack) →
    ((∃ records, call.next.store.table.readAll = .ok records) ↔
      ∀ r ∈ log ++ added, r.event.HasPlainYears)
  /-- whatever is read is what was recorded -/
  readsBack : (∀ r ∈ log ++ added, r.event.ConfidenceReadsBack ∧ r.event.HasPlainYears ∧
      r.event.LeapsOnMinute) → call.next.store.ReadsBack (log ++ added)

namespace Ledger

/-- Whatever is asked of a ledger on a fresh table, the records of its events are a log; a request
that is answered adds the record that its reply speaks of; and from then on all of the log is read
back, unless a time in it belongs to a year without four digits, a leap second in it is off the
minute or the text of a confidence is read as another number.  A time in such a year is enough for
no run to be listed.  No leap second in the log is off the minute unless a request came with one,
which one that submits a document cannot. -/
theorem recorded_events_can_be_read (operations : List (Operation DurableStore))
    (operation : Operation DurableStore) (reply : Reply)
    (hanswer : (Call.mk (onTable.after operations) operation).answer = .ok reply) :
    ∃ log added, (DurableStore.ofTable .empty).Grows log (onTable.after operations).store ∧
      (Call.mk (onTable.after operations) operation).Adds reply log added ∧
      ((∀ o ∈ operation :: operations, o.LeapsOnMinute) →
        ∀ r ∈ log ++ added, r.event.LeapsOnMinute) := by
  -- Times are any, or those of leap seconds on the minute if that is what the requests bring.
  obtain ⟨dates, hsteps, hoperations, hminute⟩ : ∃ dates : Instant → Prop,
      DatedStepsOf DurableStore (DurableStore.Steps dates) dates ∧
      (∀ o ∈ operation :: operations, o.DatedBy dates) ∧
      ((∀ o ∈ operation :: operations, o.LeapsOnMinute) → ∀ t, dates t → t.OnMinute) := by
    by_cases hleaps : ∀ o ∈ operation :: operations, o.LeapsOnMinute
    · exact ⟨Instant.OnMinute, datedStepsOf_append (fun _ h => h)
        (fun _ => Instant.onMinute_toMicros) fun _ k h => Instant.onMinute_addMillis h k,
        fun o ho => (hleaps o ho).datedBy, fun _ _ h => h⟩
    · exact ⟨fun _ => True, datedStepsOf_append (fun _ _ => trivial) (fun _ _ => trivial)
        fun _ _ _ => trivial, fun o _ => o.datedBy_any, fun h => absurd h hleaps⟩
  obtain ⟨hoperation, hbefore⟩ := List.forall_mem_cons.mp hoperations
  obtain ⟨log, hlog, hlogDates⟩ := DurableStore.exists_grows
    (reflTransGen_after_of_datedBy hsteps onTable hbefore)
  obtain ⟨event, before, r, after, hevent, hfirstSteps, hsubmit, hlastSteps, hdescribes⟩ :=
    exists_submit_of_answer hsteps _ hoperation hanswer
  obtain ⟨first, hfirst, hfirstDates⟩ := DurableStore.exists_grows hfirstSteps
  obtain ⟨last, hlast, hlastDates⟩ := DurableStore.exists_grows hlastSteps
  have hadded := (hfirst.trans (grows_of_submit hsubmit)).trans hlast
  have hholds := hadded.holds (hlog.holds DurableStore.holds_empty)
  rw [List.nil_append] at hholds
  refine ⟨log, first ++ [r] ++ last, hlog, ⟨hadded, ⟨r, by simp, hdescribes⟩, hholds.readAll_iff,
    fun hlegible => hholds.readsBack fun r hr => ?_⟩, fun hleaps => ?_⟩
  · obtain ⟨hconfidence, hyears, hleaps⟩ := hlegible r hr
    exact ⟨hholds.normal r hr, hyears, hleaps, hconfidence⟩
  · have hrecorded : r.event.DatedBy dates := hsteps.recorded event hevent _ _ _ hsubmit
    simp only [List.forall_mem_append, List.forall_mem_singleton]
    exact ⟨fun x hx => (hlogDates x hx).imp (hminute hleaps),
      ⟨fun x hx => (hfirstDates x hx).imp (hminute hleaps), hrecorded.imp (hminute hleaps)⟩,
      fun x hx => (hlastDates x hx).imp (hminute hleaps)⟩

theorem leap_action_can_be_read :
    ∃ reply, (Call.mk onTable (.submit leapAction)).answer = .ok reply ∧
      ∃ log added, (DurableStore.ofTable .empty).Grows log onTable.store ∧
        (Call.mk onTable (.submit leapAction)).Adds reply log added ∧
        ∀ r ∈ log ++ added, r.event.LeapsOnMinute := by
  obtain ⟨next, hsubmit, -⟩ :=
    exists_submit_first leapAction (by decide +kernel) (by decide +kernel)
  have hanswer : (Call.mk onTable (.submit leapAction)).answer =
      .ok (.recorded (nextRecord [] leapAction.normalized)) := by
    simp only [Call.answer, Operation.perform, bind_apply, hsubmit]
    rfl
  obtain ⟨log, added, hlog, hadds, hminute⟩ := recorded_events_can_be_read [] _ _ hanswer
  refine ⟨_, hanswer, log, added, hlog, hadds, hminute fun o ho => ?_⟩
  obtain rfl := List.mem_singleton.mp ho
  exact .of_unanswered (by decide) rfl

/-! ## An event in the year 10000 -/

/-- An event in the last hour before the year 10000, by a clock that is an hour behind UTC. -/
def lateDraft : Event :=
  Event.plain "late" "run" (Time.Instant.epoch.addMillis 253402302600000) .action .agent "Draft"
    "Drafted."

/-- The document that is submitted for it. -/
def lateDocument : Json := .object (lateDraft.membersAt "9999-12-31T23:30:00-01:00")

theorem ofSubmission?_lateDocument : Event.ofSubmission? lateDocument = .ok lateDraft := by
  have hraw : Time.Instant.parse? "9999-12-31T23:30:00-01:00" = some lateDraft.timestamp := by
    decide +kernel
  have hdecode : Event.ofJson? lateDocument = .ok lateDraft :=
    Event.decode_membersAt .value hraw (by simp [lateDraft, Event.plain, Approval.notRequired])
  have hnormal : lateDraft.normalized = lateDraft := by decide +kernel
  have hproblems : lateDraft.problems = [] := by decide +kernel
  rw [Event.ofSubmission?, hdecode]
  dsimp only
  rw [hnormal, hproblems]

/-- The payload of the event is stored, and not decoded any more. -/
theorem exists_fault_lateDraft :
    ∃ fault, Event.ofText? lateDraft.payload.canonical = .error fault := by
  cases hread : Event.ofText? lateDraft.payload.canonical with
  | error fault => exact ⟨fault, rfl⟩
  | ok event =>
    have hconfidence : lateDraft.ConfidenceReadsBack := by
      intro x hx
      cases hx
    have hyears := Event.hasPlainYears_of_ofText? hconfidence hread
    exact absurd hyears.timestamp (by decide +kernel)

/-- The document is accepted, and from then on the runs of the ledger cannot be listed. -/
theorem late_event_closes_the_ledger :
    ∃ reply fault, (Call.mk onTable (.submitDocument lateDocument)).answer = .ok reply ∧
      (Call.mk onTable (.submitDocument lateDocument)).next.store.table.readAll =
        .error (.corruptRecord 1 (.badPayload fault)) := by
  have hnormal : lateDraft.normalized = lateDraft := by decide +kernel
  obtain ⟨next, hsubmit, hholds⟩ :=
    exists_submit_first lateDraft (by decide +kernel) (by decide +kernel)
  rw [hnormal] at hsubmit hholds
  obtain ⟨fault, hfault⟩ := exists_fault_lateDraft
  have hperform : (Operation.submitDocument lateDocument).perform onTable =
      (.ok (.recorded (nextRecord [] lateDraft)), next) := by
    rw [Operation.perform, submitDocument, ofSubmission?_lateDocument, bind_apply]
    dsimp only
    rw [hsubmit]
    rfl
  refine ⟨.recorded (nextRecord [] lateDraft), fault, congrArg Prod.fst hperform, ?_⟩
  have hnext : (Call.mk onTable (.submitDocument lateDocument)).next = next :=
    congrArg Prod.snd hperform
  have hrow := Row.toRecord?_ofRecord_error (r := nextRecord [] lateDraft) hfault
    (nextRecord [] lateDraft).integrityWarning
  rw [hnext, Table.readAll, hholds.table.rows, List.map_singleton, List.mergeSort_singleton,
    ← List.map_singleton, recordsOf, readMarks_map, List.map_singleton]
  dsimp only
  rw [decodeRows, hrow]
  rfl

end Ledger

end RunLedger
