/-
  Proofs/Store/Appended.lean --- a store in memory that events have been appended to.

  WHAT THIS FILE IS FOR.  Whatever events a store in memory is handed, one after
  the other, it refuses exactly those whose identifier an accepted one has in the
  same run, and gives the others the places from one on.  Its listings are the
  accepted records, in the order of their places or in read order.  Marks and links
  are as the records before say, and a check of all runs finds nothing wrong.
-/
import Mathlib.Data.List.Sort
import RunLedger.Proofs.Store.SealedLog

set_option autoImplicit false

namespace RunLedger

open RunLedger.Text (trim)

/-! ## Read order -/

namespace Record

/-- The first record is read before the second. -/
def IsReadBefore (a b : Record) : Prop :=
  a.timestamp < b.timestamp ∨ (a.timestamp = b.timestamp ∧ a.sequence < b.sequence)

theorem isReadBefore_of_readsBefore {a b : Record} (h : a.readsBefore b = true)
    (hplace : a.sequence ≠ b.sequence) : a.IsReadBefore b := by
  rcases (readsBefore_iff a b).mp h with htime | ⟨htime, hle⟩
  · exact .inl htime
  · exact .inr ⟨htime, Nat.lt_of_le_of_ne hle hplace⟩

/-- Records with different places are strictly ordered by sorting. -/
theorem sortForReading_isReadBefore {records : List Record}
    (hplaces : (records.map sequence).Nodup) : (sortForReading records).Pairwise IsReadBefore := by
  have hnodup : ((sortForReading records).map sequence).Nodup :=
    ((sortForReading_perm records).map sequence).nodup_iff.mpr hplaces
  refine ((sortForReading_pairwise records).and (List.pairwise_map.mp hnodup)).imp ?_
  rintro a b ⟨hle, hne⟩
  exact isReadBefore_of_readsBefore hle hne

end Record

/-- The records of a run are read in the same order with the other runs and without them. -/
theorem recordsOfRun_sortForReading {log : List Record} (hplaces : (log.map Record.sequence).Nodup)
    (runId : String) :
    recordsOfRun (Record.sortForReading log) runId =
      Record.sortForReading (recordsOfRun log runId) := by
  have hperm : (recordsOfRun (Record.sortForReading log) runId).Perm
      (Record.sortForReading (recordsOfRun log runId)) :=
    ((Record.sortForReading_perm log).filter _).trans (Record.sortForReading_perm _).symm
  have hsorted := ((Record.sortForReading_perm log).map Record.sequence).nodup_iff.mpr hplaces
  refine Record.eq_of_perm_of_pairwise hperm ?_ ?_ (Record.sortForReading_pairwise _)
  · exact hsorted.sublist (List.filter_sublist.map _)
  · exact (Record.sortForReading_pairwise log).filter _

namespace MemoryStore

/-! ## Events one after the other -/

/-- Hands a store events one after the other: its answers, and what it becomes. -/
def appendEach (store : MemoryStore) :
    List Event → List (Except StoreError Record) × MemoryStore
  | [] => ([], store)
  | event :: rest =>
    let (answer, next) := store.append event
    let (answers, last) := next.appendEach rest
    (answer :: answers, last)

end MemoryStore

/-- The records that came back for the events that were accepted. -/
def acceptedIn (answers : List (Except StoreError Record)) : List Record :=
  answers.filterMap Except.toOption

@[simp] theorem acceptedIn_ok (r : Record) (answers : List (Except StoreError Record)) :
    acceptedIn (.ok r :: answers) = r :: acceptedIn answers := rfl

@[simp] theorem acceptedIn_error (error : StoreError) (answers : List (Except StoreError Record)) :
    acceptedIn (.error error :: answers) = acceptedIn answers := rfl

namespace MemoryStore

variable {store next : MemoryStore} {log : List Record} {event : Event} {r : Record}

/-- The record of an accepted event is what the log makes of it. -/
theorem Holds.sealed_append (h : store.Holds log) (hlog : Sealed log)
    (happend : store.append event = (.ok r, next)) : Sealed (log ++ [r]) := by
  have hanswer := h.append_fst event
  rw [happend, appendOn] at hanswer
  refine sealed_concat_iff.mpr ⟨hlog, ?_⟩
  split at hanswer
  · cases hanswer
  · rw [(recorded happend).1]
    exact Except.ok.inj hanswer

/-- Whatever events the store is handed, it holds the records of the accepted ones behind those that
it held, and their log is sealed. -/
theorem Holds.appendEach (h : store.Holds log) (hlog : Sealed log) (events : List Event) :
    (store.appendEach events).2.Holds (log ++ acceptedIn (store.appendEach events).1) ∧
      Sealed (log ++ acceptedIn (store.appendEach events).1) := by
  induction events generalizing store log with
  | nil =>
    rw [MemoryStore.appendEach, acceptedIn, List.filterMap_nil, List.append_nil]
    exact ⟨h, hlog⟩
  | cons event rest ih =>
    rcases happend : store.append event with ⟨error | r, next⟩
    · have hrest := ih (append_error happend ▸ h) hlog
      simpa [MemoryStore.appendEach, happend] using hrest
    · have hrest := ih (h.append happend) (h.sealed_append hlog happend)
      simpa [MemoryStore.appendEach, happend] using hrest

theorem holds_appendEach (events : List Event) :
    (empty.appendEach events).2.Holds (acceptedIn (empty.appendEach events).1) ∧
      Sealed (acceptedIn (empty.appendEach events).1) := by
  have h := holds_empty.appendEach sealed_nil events
  rwa [List.nil_append] at h

/-! ## What is listed and answered -/

/-- What a store in memory lists if it has accepted the events of these records, in this order. -/
structure Lists (store : MemoryStore) (accepted : List Record) : Prop where
  /-- the places are given one after the other, from one on -/
  places : accepted.map Record.sequence = List.range' 1 accepted.length
  /-- a run in the order of places has its records in the order of acceptance -/
  chain : ∀ runId, (EventStore.readChain runId : StoreM MemoryStore _) store =
    (.ok (recordsOfRun accepted runId), store)
  /-- a run in read order has the same records, strictly in order -/
  run : ∀ runId, ∃ listed, (EventStore.readRun runId : StoreM MemoryStore _) store =
      (.ok listed, store) ∧
    listed.Perm (recordsOfRun accepted runId) ∧ listed.Pairwise Record.IsReadBefore
  /-- all runs in read order are all records, strictly in order, in whatever order the runs are
  kept, and the records of a run among them are those of the run in read order -/
  all : ∃ listed, (∀ runs, runs.Perm store.runs →
      (EventStore.readAll : StoreM MemoryStore _) ⟨store.sequence, runs⟩ =
        (.ok listed, ⟨store.sequence, runs⟩)) ∧
    listed.Perm accepted ∧ listed.Pairwise Record.IsReadBefore ∧
    ∀ runId, (EventStore.readRun runId : StoreM MemoryStore _) store =
      (.ok (recordsOfRun listed runId), store)
  /-- a record is marked exactly if one accepted earlier in its run has a later time -/
  mark : ∀ before r after, accepted = before ++ r :: after →
    (r.integrityWarning = true ↔ ∃ x ∈ before, x.runId = r.runId ∧ r.timestamp < x.timestamp)
  /-- a record carries the digest of the one before it in its run -/
  link : ∀ runId before r after, recordsOfRun accepted runId = before ++ r :: after →
    r.prevHash = before.getLast?.map Record.hash

/-- How a store in memory answers an event if it has accepted the events of these records. -/
structure Answers (store : MemoryStore) (accepted : List Record) (event : Event) : Prop where
  /-- the event is refused exactly if its identifier is taken in its run -/
  refused : (store.append event).1 =
      .error (.duplicateEvent (trim event.id) (trim event.runId)) ↔
    ∃ r ∈ accepted, r.runId = trim event.runId ∧ r.eventId = trim event.id
  /-- otherwise it gets the next place, and is marked exactly if it is not read last in its run -/
  recorded : (¬ ∃ r ∈ accepted, r.runId = trim event.runId ∧ r.eventId = trim event.id) →
    ∃ r next, store.append event = (.ok r, next) ∧ r.event = event.normalized ∧
      r.sequence = accepted.length + 1 ∧
      ∃ listed, (EventStore.readRun r.runId : StoreM MemoryStore _) next = (.ok listed, next) ∧
        (r.integrityWarning = true ↔ listed.getLast? ≠ some r)

theorem Holds.readAll_eq (h : store.Holds log) {runs : List (String × RunJournal)}
    (hruns : runs.Perm store.runs) :
    (EventStore.readAll : StoreM MemoryStore _) ⟨store.sequence, runs⟩ =
      (.ok (Record.sortForReading log), ⟨store.sequence, runs⟩) := by
  have hrecords : (MemoryStore.mk store.sequence runs).records.Perm log :=
    (hruns.flatMap_right _).trans h.all
  rw [← Record.sortForReading_congr hrecords
    ((hrecords.map Record.sequence).nodup_iff.mpr h.places_nodup)]
  rfl

theorem Holds.readRun_eq (h : store.Holds log) (runId : String) :
    (EventStore.readRun runId : StoreM MemoryStore _) store =
      (.ok (Record.sortForReading (recordsOfRun log runId)), store) := by
  rw [recordsOfRun, ← h.run runId]
  rfl

theorem Holds.readChain_eq (h : store.Holds log) (runId : String) :
    (EventStore.readChain runId : StoreM MemoryStore _) store =
      (.ok (recordsOfRun log runId), store) := by
  rw [recordsOfRun, ← h.run runId]
  rfl

theorem Holds.lists (h : store.Holds log) (hlog : Sealed log) : store.Lists log where
  places := hlog.places
  chain := h.readChain_eq
  run runId := by
    refine ⟨_, h.readRun_eq runId, Record.sortForReading_perm _,
      Record.sortForReading_isReadBefore ?_⟩
    exact h.places_nodup.sublist (List.filter_sublist.map Record.sequence)
  all := by
    refine ⟨_, fun runs => h.readAll_eq, Record.sortForReading_perm log,
      Record.sortForReading_isReadBefore h.places_nodup, fun runId => ?_⟩
    rw [recordsOfRun_sortForReading h.places_nodup]
    exact h.readRun_eq runId
  mark := by
    rintro before r after rfl
    exact hlog.integrityWarning_iff
  link runId before r after := hlog.prevHash_of_recordsOfRun

theorem Holds.answers (h : store.Holds log) (hlog : Sealed log) (event : Event) :
    store.Answers log event where
  refused := by
    rw [h.append_fst, appendOn]
    split
    · rename_i htaken
      exact ⟨fun _ => htaken, fun _ => rfl⟩
    · rename_i hnew
      refine ⟨fun hanswer => ?_, fun htaken => absurd htaken hnew⟩
      cases hanswer
  recorded hnew := by
    have hfree : ¬ Occupied log event.normalized.runId event.normalized.id := hnew
    have hanswer := h.append_fst event
    rw [appendOn, if_neg hfree] at hanswer
    rcases happend : store.append event with ⟨answer, next⟩
    rw [happend] at hanswer
    obtain rfl : answer = .ok (nextRecord log event.normalized) := hanswer
    generalize nextRecord log event.normalized = r at happend
    have hsealed := h.sealed_append hlog happend
    refine ⟨r, next, rfl, (recorded happend).1, hsealed.sequence_eq, _,
      (h.append happend).readRun_eq r.runId, ?_⟩
    -- the record is read behind the records up to its time and before the later ones
    obtain ⟨before, after, hsplit, hplace⟩ :=
      r.event.exists_readsBetween (Record.inTimeOrder_sortForReading (recordsOfRun log r.runId))
    have hlisted := h.readOrder_append happend (by rw [readOrder, h.run]; exact hsplit) hplace
    rw [readOrder, (h.append happend).run] at hlisted
    have hothers : ∀ x, x ∈ before ++ after ↔ x ∈ log ∧ x.runId = r.runId := by
      intro x
      rw [← hsplit, Record.mem_sortForReading, mem_recordsOfRun]
    rw [recordsOfRun, hlisted, hplace.getLast?_ne_iff, hsealed.integrityWarning_iff]
    simp only [hothers, and_assoc]

/-! ## Every sequence of events -/

/-- Whatever events a fresh store in memory has been handed: it lists the records of those that it
has accepted, in the order of their places and in read order; they have the places from one on, and
their marks and links are as their listings say.  The next event is refused exactly if an accepted
one has its identifier in its run. -/
theorem appended_store_lists_accepted (events : List Event) (event : Event) :
    (empty.appendEach events).2.Lists (acceptedIn (empty.appendEach events).1) ∧
      (empty.appendEach events).2.Answers (acceptedIn (empty.appendEach events).1) event := by
  obtain ⟨hholds, hsealed⟩ := holds_appendEach events
  exact ⟨hholds.lists hsealed, hholds.answers hsealed event⟩

/-- Whatever events a fresh store in memory has been handed, a check of all runs finds nothing
wrong: it reports, for each run with an accepted event and in the order of the runs, how many have
been accepted and the digest of the last. -/
theorem appended_runs_pass_check (events : List Event) :
    ∃ reports, (checkAllRuns : StoreM MemoryStore _) (empty.appendEach events).2 =
        (.ok reports, (empty.appendEach events).2) ∧
      Summarizes reports (acceptedIn (empty.appendEach events).1) := by
  obtain ⟨hholds, hsealed⟩ := holds_appendEach events
  exact hsealed.exists_checkAllRuns (hholds.readAll_eq (.refl _)) hholds.readChain_eq

/-- Events of two runs, of which the third is the first once more and the last is dated before it. -/
def twoRuns : List Event :=
  let draft := Event.plain "draft" "letter" (Time.Instant.epoch.addMillis 5) .action .agent "Draft"
    "Drafted."
  [draft, .plain "pack" "parcel" .epoch .action .agent "Pack" "Packed.", draft,
    .plain "send" "letter" .epoch .action .agent "Send" "Sent."]

/-- The draft is refused when it comes again, and both runs are reported as they are. -/
theorem two_runs_pass_check :
    (empty.appendEach twoRuns).1.map Except.isOk = [true, true, false, true] ∧
      ∃ reports, (checkAllRuns : StoreM MemoryStore _) (empty.appendEach twoRuns).2 =
          (.ok reports, (empty.appendEach twoRuns).2) ∧
        reports.map (fun report => (report.runId, report.eventCount)) =
          [("letter", 2), ("parcel", 1)] := by
  obtain ⟨reports, hcheck, hreports⟩ := appended_runs_pass_check twoRuns
  have haccepted : (acceptedIn (empty.appendEach twoRuns).1).map Record.runId =
      ["letter", "parcel", "letter"] := by decide +kernel
  have hruns : reports.map ChainReport.runId = ["letter", "parcel"] := by
    refine hreports.ascending.eq_of_mem_iff (by decide) fun runId => ?_
    rw [hreports.runs, ← List.mem_map, haccepted, List.mem_cons, List.mem_pair, List.mem_pair]
    tauto
  have hcounts : reports.map (fun report => (report.runId, report.eventCount)) =
      (reports.map ChainReport.runId).map fun runId =>
        (runId, (recordsOfRun (acceptedIn (empty.appendEach twoRuns).1) runId).length) := by
    rw [List.map_map]
    exact List.map_congr_left fun report hreport =>
      congrArg (report.runId, ·) (hreports.count report hreport)
  refine ⟨by decide +kernel, reports, hcheck, ?_⟩
  rw [hcounts, hruns]
  decide +kernel

end MemoryStore

end RunLedger
