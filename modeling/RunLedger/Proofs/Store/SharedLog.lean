/-
  Proofs/Store/SharedLog.lean --- several handles on one table.

  WHAT THIS FILE IS FOR.  Places are given out by the table, and it is the table that
  tells whether an event is there already; in that, handles cannot get in each
  other's way.  Marks and links come from the head that a handle remembers, and a
  handle does not notice what others have appended to the run since.  The chains stay
  whole as long as no event is accepted through a handle that has been overtaken, and
  no longer: the next record through such a handle is linked past the records that it
  has missed, and a check of the runs fails from then on.
-/
import RunLedger.Proofs.Store.Alike
import RunLedger.Proofs.Store.Appended
import RunLedger.Store.Shared

set_option autoImplicit false

namespace RunLedger

/-- How a durable store answers an event, whatever its handle remembers: the place of the record, and
whether the event is refused, do not depend on that. -/
theorem DurableStore.append_of_holds (store : DurableStore) {log : List Record}
    (h : store.table.Holds log) (hlegible : ∀ r ∈ log, r.Legible)
    (hroom : (log.length : Int) < lastPlace) (event : Event) :
    ∃ head, store.handle.head store.table event.normalized.runId = .ok head ∧
      store.append event =
        if Occupied log event.normalized.runId event.normalized.id then
          (.error (.duplicateEvent event.normalized.id event.normalized.runId),
            ⟨store.table, store.handle.remember event.normalized.runId head⟩)
        else
          let r := head.recordNext (log.length + 1) event.normalized
          (.ok r, ⟨⟨store.table.rows ++ [.ofRecord r], log.length + 1⟩,
            store.handle.remember event.normalized.runId (head.after r)⟩) := by
  obtain ⟨head, hhead⟩ : ∃ head,
      store.handle.head store.table event.normalized.runId = .ok head := by
    unfold Handle.head
    cases store.handle.lookup event.normalized.runId with
    | some head => exact ⟨head, rfl⟩
    | none => exact ⟨_, h.head_eq fun r hr => hlegible r (List.mem_of_mem_filter hr)⟩
  have hplace : store.table.nextPlace? = some ((log.length : Int) + 1) := by
    rw [h.nextPlace?_eq, if_neg (Int.not_le.mpr hroom)]
  refine ⟨head, hhead, ?_⟩
  rw [append_apply, hhead, hplace]
  dsimp only
  by_cases htaken : Occupied log event.normalized.runId event.normalized.id
  · rw [if_pos (h.holds_iff.mpr htaken), if_pos htaken]
  · rw [if_neg (mt h.holds_iff.mp htaken), if_neg htaken]
    rfl

namespace SharedTable

variable {ι : Type} {shared next : SharedTable ι} {log : List Record} {event : Event}
  {r : Record} {i : ι}

/-- What the handle takes for the head of a run is what the table says of it. -/
def Current (shared : SharedTable ι) (i : ι) (runId : String) : Prop :=
  (shared.handles i).head shared.table runId = shared.table.head runId

/-- Every event that is accepted is accepted through a handle that has not been overtaken in the
run. -/
def KeepsUp [DecidableEq ι] (shared : SharedTable ι) : List (ι × Event) → Prop
  | [] => True
  | (i, event) :: rest =>
    ((shared.append i event).1.isOk = true → shared.Current i event.normalized.runId) ∧
      KeepsUp (shared.append i event).2 rest

/-! ## What the table holds -/

/-- The table holds exactly the records of a log, and all of them are legible. -/
structure Holds (shared : SharedTable ι) (log : List Record) : Prop where
  table : shared.table.Holds log
  legible : ∀ r ∈ log, r.Legible

theorem holds_opened : (opened .empty : SharedTable ι).Holds [] :=
  ⟨Table.holds_empty, by simp⟩

section

variable [DecidableEq ι]

/-- What an event is refused for, and what its handle remembers then. -/
theorem Holds.append_error (h : shared.Holds log) (hroom : (log.length : Int) < lastPlace)
    {error : StoreError} (happend : shared.append i event = (.error error, next)) :
    Occupied log event.normalized.runId event.normalized.id ∧
      ∃ head, (shared.handles i).head shared.table event.normalized.runId = .ok head ∧
        next = shared.leave i
          ⟨shared.table, (shared.handles i).remember event.normalized.runId head⟩ := by
  obtain ⟨head, hhead, hanswer⟩ :=
    (shared.through i).append_of_holds h.table h.legible hroom event
  by_cases htaken : Occupied log event.normalized.runId event.normalized.id
  · rw [append, hanswer, if_pos htaken] at happend
    exact ⟨htaken, head, hhead, (Prod.mk.inj happend).2.symm⟩
  · rw [append, hanswer, if_neg htaken] at happend
    cases (Prod.mk.inj happend).1

/-- What the record of an accepted event is, and what its handle remembers then. -/
theorem Holds.append_ok (h : shared.Holds log) (hroom : (log.length : Int) < lastPlace)
    (happend : shared.append i event = (.ok r, next)) :
    ¬ Occupied log event.normalized.runId event.normalized.id ∧
      ∃ head, (shared.handles i).head shared.table event.normalized.runId = .ok head ∧
        r = head.recordNext (log.length + 1) event.normalized ∧
        next = shared.leave i ⟨⟨shared.table.rows ++ [.ofRecord r], log.length + 1⟩,
          (shared.handles i).remember event.normalized.runId (head.after r)⟩ := by
  obtain ⟨head, hhead, hanswer⟩ :=
    (shared.through i).append_of_holds h.table h.legible hroom event
  by_cases htaken : Occupied log event.normalized.runId event.normalized.id
  · rw [append, hanswer, if_pos htaken] at happend
    cases (Prod.mk.inj happend).1
  · rw [append, hanswer, if_neg htaken] at happend
    obtain ⟨hr, hnext⟩ := Prod.mk.inj happend
    obtain rfl := Except.ok.inj hr
    exact ⟨htaken, head, hhead, rfl, hnext.symm⟩

theorem Holds.of_error (h : shared.Holds log) (hroom : (log.length : Int) < lastPlace)
    {error : StoreError} (happend : shared.append i event = (.error error, next)) :
    next.Holds log := by
  obtain ⟨-, head, -, rfl⟩ := h.append_error hroom happend
  exact ⟨h.table, h.legible⟩

theorem Holds.of_ok (h : shared.Holds log) (hroom : (log.length : Int) < lastPlace)
    (hevent : (StoreCall.append event).Legible)
    (happend : shared.append i event = (.ok r, next)) : next.Holds (log ++ [r]) := by
  obtain ⟨-, head, -, rfl, rfl⟩ := h.append_ok hroom happend
  refine ⟨h.table.put rfl, ?_⟩
  intro x hx
  rcases List.mem_append.mp hx with hx | hx
  · exact h.legible x hx
  · rw [List.mem_singleton.mp hx]
    exact hevent.record rfl

/-- Whatever the handles remember, the table holds the records of the accepted events behind those
that it held. -/
theorem Holds.appendEach (h : shared.Holds log) (calls : List (ι × Event))
    (hlegible : ∀ call ∈ calls, (StoreCall.append call.2).Legible)
    (hroom : (log.length + calls.length : Int) ≤ lastPlace) :
    (shared.appendEach calls).2.Holds (log ++ acceptedIn (shared.appendEach calls).1) := by
  induction calls generalizing shared log with
  | nil =>
    rw [SharedTable.appendEach, acceptedIn, List.filterMap_nil, List.append_nil]
    exact h
  | cons call rest ih =>
    obtain ⟨i, event⟩ := call
    obtain ⟨hevent, hrest⟩ := List.forall_mem_cons.mp hlegible
    rw [List.length_cons] at hroom
    rcases happend : shared.append i event with ⟨error | r, next⟩
    · have hnext := ih (h.of_error (by omega) happend) hrest (by omega)
      simpa [SharedTable.appendEach, happend] using hnext
    · have hnext := ih (h.of_ok (by omega) hevent happend) hrest
        (by rw [List.length_append, List.length_singleton]; omega)
      simpa [SharedTable.appendEach, happend] using hnext

end

/-! ## Listing and checking -/

theorem Holds.readAll_eq (h : shared.Holds log) (i : ι) :
    (EventStore.readAll : StoreM DurableStore _) (shared.through i) =
      (.ok (Record.sortForReading log), shared.through i) := by
  rw [← h.table.readAll_eq h.legible]
  rfl

theorem Holds.readChain_eq (h : shared.Holds log) (i : ι) (runId : String) :
    (EventStore.readChain runId : StoreM DurableStore _) (shared.through i) =
      (.ok (recordsOfRun log runId), shared.through i) := by
  rw [← h.table.readChain_eq fun r hr => h.legible r (List.mem_of_mem_filter hr)]
  rfl

/-- A check of all runs through a handle that finds nothing wrong has found a chain in each run. -/
theorem Holds.checkChain_of_checked (h : shared.Holds log) {reports : List ChainReport}
    {store : DurableStore}
    (hchecked : (checkAllRuns : StoreM DurableStore _) (shared.through i) = (.ok reports, store))
    (runId : String) : checkChain (recordsOfRun log runId) = .ok () := by
  obtain ⟨-, records, hrecords, hruns, hattest⟩ :=
    (checkAllRuns_eq_ok_iff (h.readChain_eq i) (h.readAll_eq i)).mp hchecked
  obtain rfl := Except.ok.inj hrecords
  by_cases hrun : ∃ r ∈ log, r.runId = runId
  · have hmem : runId ∈ reports.map ChainReport.runId := by
      rw [hruns, runIdsOf_congr (Record.sortForReading_perm log)]
      exact mem_runIdsOf.mpr hrun
    obtain ⟨report, hreport, rfl⟩ := List.mem_map.mp hmem
    obtain ⟨found, hfound, hchain, -⟩ := hattest report hreport
    rwa [Except.ok.inj hfound]
  · have hnone : recordsOfRun log runId = [] :=
      List.filter_eq_nil_iff.mpr fun r hr heq => hrun ⟨r, hr, beq_iff_eq.mp heq⟩
    rw [hnone]
    rfl

theorem Holds.head_eq (h : shared.Holds log) (runId : String) :
    shared.table.head runId = .ok (RunTip.ofRecords (recordsOfRun log runId)) :=
  h.table.head_eq fun r hr => h.legible r (List.mem_of_mem_filter hr)

/-! ## Handles that keep up -/

/-- While handles keep up, the log is sealed, and what a handle remembers of a run is what the records
of the run up to some point make of an empty head. -/
structure Follows (shared : SharedTable ι) (log : List Record) : Prop
    extends shared.Holds log where
  isSealed : Sealed log
  known : ∀ i runId head, (shared.handles i).head shared.table runId = .ok head →
    ∃ known behind, recordsOfRun log runId = known ++ behind ∧ head = RunTip.ofRecords known

theorem follows_opened : (opened .empty : SharedTable ι).Follows [] where
  toHolds := holds_opened
  isSealed := sealed_nil
  known i runId head hhead := by
    have hempty : Table.empty.head runId = .ok (RunTip.ofRecords (recordsOfRun [] runId)) :=
      Table.holds_empty.head_eq (by simp [recordsOfRun])
    exact ⟨[], [], rfl, Except.ok.inj (hhead.symm.trans hempty)⟩

section

variable [DecidableEq ι]

/-- A refused event changes no head. -/
theorem Holds.head_of_error (h : shared.Holds log) (hroom : (log.length : Int) < lastPlace)
    {error : StoreError} (happend : shared.append i event = (.error error, next)) (j : ι)
    (key : String) :
    (next.handles j).head next.table key = (shared.handles j).head shared.table key := by
  obtain ⟨-, head, hhead, rfl⟩ := h.append_error hroom happend
  simp only [leave]
  split
  · rename_i hj
    subst hj
    rw [Handle.head_remember]
    split
    · rename_i hkey
      rw [hkey, hhead]
    · rfl
  · rfl

/-- An accepted event changes no head of another run. -/
theorem Holds.head_of_ok (h : shared.Holds log) (hroom : (log.length : Int) < lastPlace)
    (happend : shared.append i event = (.ok r, next)) (j : ι) {key : String} (hkey : key ≠ r.runId) :
    (next.handles j).head next.table key = (shared.handles j).head shared.table key ∧
      next.table.head key = shared.table.head key := by
  obtain ⟨-, head, -, hr, rfl⟩ := h.append_ok hroom happend
  have hrun : event.normalized.runId = (Row.ofRecord r).runId := by rw [hr]; rfl
  have htable : Table.head ⟨shared.table.rows ++ [Row.ofRecord r], (log.length : Int) + 1⟩ key =
      shared.table.head key := shared.table.head_concat hkey.symm _
  refine ⟨?_, htable⟩
  simp only [leave]
  split
  · rename_i hj
    subst hj
    have hother : ¬ key = (Row.ofRecord r).runId := hkey
    rw [hrun, Handle.head_remember_concat, if_neg hother]
  · unfold Handle.head
    rw [htable]

/-- A refused event does not matter to handles that keep up. -/
theorem Follows.of_error (h : shared.Follows log) (hroom : (log.length : Int) < lastPlace)
    {error : StoreError} (happend : shared.append i event = (.error error, next)) :
    next.Follows log where
  toHolds := h.toHolds.of_error hroom happend
  isSealed := h.isSealed
  known j key head hhead := by
    rw [h.toHolds.head_of_error hroom happend] at hhead
    exact h.known j key head hhead

variable (h : shared.Follows log) (hroom : (log.length : Int) < lastPlace)
  (happend : shared.append i event = (.ok r, next))
  (hcurrent : shared.Current i event.normalized.runId)

include h hroom happend hcurrent

/-- The record of an event that is accepted through a handle that has not been overtaken is what the
event becomes behind the log. -/
theorem Follows.eq_nextRecord : r = nextRecord log r.event := by
  obtain ⟨-, head, hhead, rfl, -⟩ := h.toHolds.append_ok hroom happend
  rw [hcurrent, h.toHolds.head_eq] at hhead
  rw [← Except.ok.inj hhead]
  rfl

/-- And behind it the handle is not overtaken either. -/
theorem Follows.current_of_ok (hevent : (StoreCall.append event).Legible) :
    next.Current i r.runId := by
  have hnext := h.toHolds.of_ok hroom hevent happend
  have hrecord := h.eq_nextRecord hroom happend hcurrent
  obtain ⟨-, head, hhead, hr, rfl⟩ := h.toHolds.append_ok hroom happend
  have hrun : event.normalized.runId = r.runId := by rw [hr]; rfl
  rw [Current, hnext.head_eq, recordsOfRun_concat, if_pos rfl, RunTip.ofRecords_concat]
  rw [hcurrent, h.toHolds.head_eq, hrun] at hhead
  simp only [leave, if_true]
  rw [hrun, Handle.head_remember, if_pos rfl, Except.ok.inj hhead]

theorem Follows.of_ok (hevent : (StoreCall.append event).Legible) :
    next.Follows (log ++ [r]) := by
  have hnext := h.toHolds.of_ok hroom hevent happend
  refine ⟨hnext, sealed_concat_iff.mpr ⟨h.isSealed, h.eq_nextRecord hroom happend hcurrent⟩, ?_⟩
  intro j key head hhead
  -- What is read from the table is what all records of the run make of an empty head.
  have hwhole (heq : next.table.head key = .ok head) : ∃ known behind,
      recordsOfRun (log ++ [r]) key = known ++ behind ∧ head = RunTip.ofRecords known := by
    rw [hnext.head_eq] at heq
    exact ⟨_, [], (List.append_nil _).symm, (Except.ok.inj heq).symm⟩
  have hpart (heq : (shared.handles j).head shared.table key = .ok head) : ∃ known behind,
      recordsOfRun (log ++ [r]) key = known ++ behind ∧ head = RunTip.ofRecords known := by
    obtain ⟨known, behind, hsplit, hknown⟩ := h.known j key head heq
    rw [recordsOfRun_concat, hsplit, List.append_assoc]
    exact ⟨known, _, rfl, hknown⟩
  by_cases hkey : key = r.runId
  · by_cases hj : j = i
    · have hcurrent' := h.current_of_ok hroom happend hcurrent hevent
      rw [hj, hkey, hcurrent', ← hkey] at hhead
      exact hwhole hhead
    · obtain ⟨-, _, -, -, rfl⟩ := h.toHolds.append_ok hroom happend
      simp only [leave, if_neg hj] at hhead
      unfold Handle.head at hhead hpart
      cases hknown : (shared.handles j).lookup key with
      | none =>
        rw [hknown] at hhead
        exact hwhole hhead
      | some known =>
        rw [hknown] at hhead hpart
        exact hpart hhead
  · rw [(h.toHolds.head_of_ok hroom happend j hkey).1] at hhead
    exact hpart hhead

omit hcurrent in
/-- A handle through which a record is linked to the end of its run has not been overtaken. -/
theorem Follows.current_of_chained
    (hchain : Record.firstBreak? none (recordsOfRun log r.runId ++ [r]) = none)
    (hfree : CollisionFree log) : shared.Current i event.normalized.runId := by
  obtain ⟨-, head, hhead, hr, -⟩ := h.toHolds.append_ok hroom happend
  have hrun : r.runId = event.normalized.runId := by rw [hr]; rfl
  obtain ⟨known, behind, hsplit, rfl⟩ := h.known i _ head hhead
  have hlink : r.prevHash = known.getLast?.map Record.hash := by
    rw [← RunTip.lastHash_ofRecords, hr]
    rfl
  have hparts : ∀ x ∈ known ++ behind, x ∈ log := by
    intro x hx
    rw [← hsplit] at hx
    exact (mem_recordsOfRun.mp hx).1
  rw [hrun, hsplit] at hchain
  obtain rfl := eq_nil_of_linked hchain hlink (hfree.mono hparts)
  rw [Current, hhead, h.toHolds.head_eq, hsplit, List.append_nil]

end

/-- Nothing is wrong with the chains. -/
structure Whole (shared : SharedTable ι) (log : List Record) : Prop where
  /-- a record is marked exactly if one stored earlier in its run has a later time -/
  mark : ∀ before r behind, log = before ++ r :: behind →
    (r.integrityWarning = true ↔ ∃ x ∈ before, x.runId = r.runId ∧ r.timestamp < x.timestamp)
  /-- a record carries the digest of the one before it in its run -/
  link : ∀ runId before r behind, recordsOfRun log runId = before ++ r :: behind →
    r.prevHash = before.getLast?.map Record.hash
  /-- a check of all runs finds nothing wrong, through whichever handle it is made -/
  check : ∀ i, ∃ reports, (checkAllRuns : StoreM DurableStore _) (shared.through i) =
      (.ok reports, shared.through i) ∧ Summarizes reports log

theorem Follows.whole (h : shared.Follows log) : shared.Whole log where
  mark := by
    rintro before r behind rfl
    exact h.isSealed.integrityWarning_iff
  link runId before r behind := h.isSealed.prevHash_of_recordsOfRun
  check i := h.isSealed.exists_checkAllRuns (h.toHolds.readAll_eq i) (h.toHolds.readChain_eq i)

theorem Holds.places (h : shared.Holds log) :
    log.map Record.sequence = List.range' 1 log.length := h.table.places

/-! ## Events one after the other -/

section

variable [DecidableEq ι]

/-- While handles keep up, the log stays sealed. -/
theorem Follows.appendEach (h : shared.Follows log) (calls : List (ι × Event))
    (hlegible : ∀ call ∈ calls, (StoreCall.append call.2).Legible)
    (hroom : (log.length + calls.length : Int) ≤ lastPlace) (hkeeps : shared.KeepsUp calls) :
    (shared.appendEach calls).2.Follows (log ++ acceptedIn (shared.appendEach calls).1) := by
  induction calls generalizing shared log with
  | nil =>
    rw [SharedTable.appendEach, acceptedIn, List.filterMap_nil, List.append_nil]
    exact h
  | cons call rest ih =>
    obtain ⟨i, event⟩ := call
    obtain ⟨hevent, hrest⟩ := List.forall_mem_cons.mp hlegible
    obtain ⟨hcurrent, hlater⟩ := hkeeps
    rw [List.length_cons] at hroom
    rcases happend : shared.append i event with ⟨error | r, next⟩
    · rw [happend] at hlater
      have hnext := ih (h.of_error (by omega) happend) hrest (by omega) hlater
      simpa [SharedTable.appendEach, happend] using hnext
    · rw [happend] at hcurrent hlater
      have hnext := ih (h.of_ok (by omega) happend (hcurrent rfl) hevent) hrest
        (by rw [List.length_append, List.length_singleton]; omega) hlater
      simpa [SharedTable.appendEach, happend] using hnext

/-- If the records form chains in the end, all handles have kept up. -/
theorem Follows.keepsUp_of_chained (h : shared.Follows log) (calls : List (ι × Event))
    (hlegible : ∀ call ∈ calls, (StoreCall.append call.2).Legible)
    (hroom : (log.length + calls.length : Int) ≤ lastPlace)
    (hchains : ∀ runId, Record.firstBreak? none
      (recordsOfRun (log ++ acceptedIn (shared.appendEach calls).1) runId) = none)
    (hfree : CollisionFree (log ++ acceptedIn (shared.appendEach calls).1)) :
    shared.KeepsUp calls := by
  induction calls generalizing shared log with
  | nil => trivial
  | cons call rest ih =>
    obtain ⟨i, event⟩ := call
    obtain ⟨hevent, hrest⟩ := List.forall_mem_cons.mp hlegible
    rw [List.length_cons] at hroom
    rcases happend : shared.append i event with ⟨error | r, next⟩
    · simp only [SharedTable.appendEach, happend, acceptedIn_error] at hchains hfree
      have hlater := ih (h.of_error (by omega) happend) hrest (by omega) hchains hfree
      rw [KeepsUp, happend]
      exact ⟨fun hok => (nomatch hok), hlater⟩
    · simp only [SharedTable.appendEach, happend, acceptedIn_ok] at hchains hfree
      rw [List.append_cons] at hchains hfree
      have hfirst : Record.firstBreak? none (recordsOfRun log r.runId ++ [r]) = none := by
        have hrun := hchains r.runId
        rw [recordsOfRun_append, recordsOfRun_concat, if_pos rfl] at hrun
        exact Record.firstBreak?_of_append hrun
      have hcurrent := h.current_of_chained (by omega) happend hfirst
        (hfree.mono fun x hx => List.mem_append_left _ (List.mem_append_left _ hx))
      have hlater := ih (h.of_ok (by omega) happend hcurrent hevent) hrest
        (by rw [List.length_append, List.length_singleton]; omega) hchains hfree
      rw [KeepsUp, happend]
      exact ⟨fun _ => hcurrent, hlater⟩

/-! ### Runs that have one writer each -/

/-- If each run is appended to through one handle only, all handles keep up. -/
theorem Follows.keepsUp_of_owned (h : shared.Follows log) (owner : String → ι)
    (hcurrent : ∀ runId, shared.Current (owner runId) runId) (calls : List (ι × Event))
    (hlegible : ∀ call ∈ calls, (StoreCall.append call.2).Legible)
    (hroom : (log.length + calls.length : Int) ≤ lastPlace)
    (howned : ∀ call ∈ calls, call.1 = owner call.2.normalized.runId) : shared.KeepsUp calls := by
  induction calls generalizing shared log with
  | nil => trivial
  | cons call rest ih =>
    obtain ⟨i, event⟩ := call
    obtain ⟨hevent, hrest⟩ := List.forall_mem_cons.mp hlegible
    obtain ⟨howner, hothers⟩ := List.forall_mem_cons.mp howned
    obtain rfl : i = owner event.normalized.runId := howner
    rw [List.length_cons] at hroom
    refine ⟨fun _ => hcurrent _, ?_⟩
    rcases happend : shared.append (owner event.normalized.runId) event with ⟨error | r, next⟩
    · refine ih (h.of_error (by omega) happend) (fun runId => ?_) hrest (by omega) hothers
      obtain ⟨-, _, -, hnext⟩ := h.toHolds.append_error (by omega) happend
      rw [Current, h.toHolds.head_of_error (by omega) happend, hcurrent, hnext]
      rfl
    · refine ih (h.of_ok (by omega) happend (hcurrent _) hevent) (fun runId => ?_) hrest
        (by rw [List.length_append, List.length_singleton]; omega) hothers
      obtain ⟨-, _, -, hr, -⟩ := h.toHolds.append_ok (by omega) happend
      have hrun : r.runId = event.normalized.runId := by rw [hr]; rfl
      by_cases hkey : runId = r.runId
      · have hbehind := h.current_of_ok (by omega) happend (hcurrent _) hevent
        rwa [← hrun, ← hkey] at hbehind
      · obtain ⟨hsame, htable⟩ := h.toHolds.head_of_ok (by omega) happend (owner runId) hkey
        rw [Current, hsame, htable, hcurrent]

/-- Handles that keep up with some events keep up with the first of them. -/
theorem KeepsUp.of_prefix {done calls : List (ι × Event)} (hkeeps : shared.KeepsUp calls)
    (hdone : done <+: calls) : shared.KeepsUp done := by
  induction done generalizing shared calls with
  | nil => trivial
  | cons call done ih =>
    obtain ⟨later, rfl⟩ := hdone
    exact ⟨hkeeps.1, ih hkeeps.2 (List.prefix_append done later)⟩

/-! ## Every order of calls -/

/-- The records of the events that are accepted through handles on an empty table. -/
def recordedBy (calls : List (ι × Event)) : List Record :=
  acceptedIn ((opened .empty).appendEach calls).1

/-- What becomes of an empty table and its handles. -/
def after (calls : List (ι × Event)) : SharedTable ι := ((opened .empty).appendEach calls).2

section

variable {calls : List (ι × Event)} (hlegible : ∀ call ∈ calls, (StoreCall.append call.2).Legible)
  (hroom : (calls.length : Int) ≤ lastPlace)

include hlegible hroom

theorem holds_after : (after calls).Holds (recordedBy calls) := by
  have h := (holds_opened (ι := ι)).appendEach calls hlegible (by simpa using hroom)
  rwa [List.nil_append] at h

theorem follows_after (hkeeps : (opened .empty).KeepsUp calls) :
    (after calls).Follows (recordedBy calls) := by
  have h := (follows_opened (ι := ι)).appendEach calls hlegible (by simpa using hroom) hkeeps
  rwa [List.nil_append] at h

end

/-- Whatever events are appended in whatever order through whichever handles, those that are
accepted get the places from one on.  As long as they are accepted through handles that have not been
overtaken in the run, marks and links are as the records stored before say, and at every point a
check of all runs finds nothing wrong, through any handle.  And unless two records that differ have
one digest, that is how it has to be: a check that finds nothing wrong shows that no event has been
accepted through a handle that had been overtaken. -/
theorem chains_are_whole_while_handles_keep_up (calls : List (ι × Event))
    (hlegible : ∀ call ∈ calls, (StoreCall.append call.2).Legible)
    (hroom : (calls.length : Int) ≤ lastPlace) :
    (recordedBy calls).map Record.sequence = List.range' 1 (recordedBy calls).length ∧
      ((opened .empty).KeepsUp calls →
        ∀ done, done <+: calls → (after done).Whole (recordedBy done)) ∧
      (CollisionFree (recordedBy calls) → ∀ i reports store,
        (checkAllRuns : StoreM DurableStore _) ((after calls).through i) = (.ok reports, store) →
          (opened .empty).KeepsUp calls) := by
  refine ⟨(holds_after hlegible hroom).places, ?_, ?_⟩
  · intro hkeeps done hdone
    have hshorter : (done.length : Int) ≤ calls.length := by exact_mod_cast hdone.length_le
    exact (follows_after (fun call hcall => hlegible call (hdone.subset hcall))
      (hshorter.trans hroom) (hkeeps.of_prefix hdone)).whole
  · intro hfree i reports store hchecked
    refine follows_opened.keepsUp_of_chained calls hlegible (by simpa using hroom)
      (fun runId => ?_) hfree
    exact checkChain_eq_ok_iff.mp ((holds_after hlegible hroom).checkChain_of_checked hchecked runId)

end

/-! ## Two handles -/

/-- A letter and a parcel, each of which has a handle of its own. -/
def lettersAndParcels : List (Bool × Event) :=
  [(true, .plain "draft" "letter" (Time.Instant.epoch.addMillis 5) .action .agent "Draft" "Drafted."),
    (false, .plain "pack" "parcel" (Time.Instant.epoch.addMillis 9) .action .agent "Pack" "Packed."),
    (true, .plain "send" "letter" (Time.Instant.epoch.addMillis 7) .action .agent "Send" "Sent.")]

theorem legible_lettersAndParcels :
    ∀ call ∈ lettersAndParcels, (StoreCall.append call.2).Legible := by
  simp only [lettersAndParcels, List.forall_mem_cons]
  exact ⟨StoreCall.legible_append_of_none (by decide +kernel) rfl rfl,
    StoreCall.legible_append_of_none (by decide +kernel) rfl rfl,
    StoreCall.legible_append_of_none (by decide +kernel) rfl rfl, by simp⟩

theorem letters_and_parcels_are_whole :
    (∀ call ∈ lettersAndParcels, (StoreCall.append call.2).Legible) ∧
      (lettersAndParcels.length : Int) ≤ lastPlace ∧
      (opened .empty).KeepsUp lettersAndParcels ∧
      ∀ done, done <+: lettersAndParcels → (after done).Whole (recordedBy done) := by
  have hroom : (lettersAndParcels.length : Int) ≤ lastPlace := by decide
  have hkeeps : (opened .empty).KeepsUp lettersAndParcels :=
    follows_opened.keepsUp_of_owned (fun runId => runId == "letter") (fun _ => rfl)
      lettersAndParcels legible_lettersAndParcels (by decide)
      (by simp only [lettersAndParcels, List.forall_mem_cons]; exact ⟨rfl, rfl, rfl, by simp⟩)
  exact ⟨legible_lettersAndParcels, hroom, hkeeps,
    (chains_are_whole_while_handles_keep_up lettersAndParcels legible_lettersAndParcels hroom).2.1
      hkeeps⟩

/-- One letter, which two handles write to in turn. -/
def oneLetter : List (Bool × Event) :=
  [(true, .plain "draft" "letter" (Time.Instant.epoch.addMillis 5) .action .agent "Draft" "Drafted."),
    (false, .plain "sign" "letter" (Time.Instant.epoch.addMillis 9) .action .human "Sign" "Signed."),
    (true, .plain "send" "letter" (Time.Instant.epoch.addMillis 7) .action .agent "Send" "Sent.")]

theorem legible_oneLetter : ∀ call ∈ oneLetter, (StoreCall.append call.2).Legible := by
  simp only [oneLetter, List.forall_mem_cons]
  exact ⟨StoreCall.legible_append_of_none (by decide +kernel) rfl rfl,
    StoreCall.legible_append_of_none (by decide +kernel) rfl rfl,
    StoreCall.legible_append_of_none (by decide +kernel) rfl rfl, by simp⟩

/-- The handle that drafted the letter does not see that it has been signed since.  What it appends
next is earlier and not marked, it is linked to the draft, and unless draft and signature have one
digest, a check of all runs finds something wrong, through either handle. -/
theorem overtaken_handle_breaks_the_chain :
    ∃ a b c, recordedBy oneLetter = [a, b, c] ∧
      (a.runId = "letter" ∧ b.runId = "letter" ∧ c.runId = "letter") ∧
      c.timestamp < b.timestamp ∧ c.integrityWarning = false ∧ c.prevHash = some a.hash ∧
      ∀ i reports store, (checkAllRuns : StoreM DurableStore _) ((after oneLetter).through i) =
        (.ok reports, store) → a.hash = b.hash := by
  obtain ⟨a, b, c, hlog, hruns, hlater, hmark, hlink⟩ : ∃ a b c, recordedBy oneLetter = [a, b, c] ∧
      (a.runId = "letter" ∧ b.runId = "letter" ∧ c.runId = "letter") ∧
      c.timestamp < b.timestamp ∧ c.integrityWarning = false ∧ c.prevHash = some a.hash :=
    ⟨_, _, _, rfl, ⟨rfl, rfl, rfl⟩, by decide +kernel, by decide +kernel, rfl⟩
  refine ⟨a, b, c, hlog, hruns, hlater, hmark, hlink, fun i reports store hchecked => ?_⟩
  have hholds := holds_after legible_oneLetter (by decide)
  have hchain := checkChain_eq_ok_iff.mp (hholds.checkChain_of_checked hchecked "letter")
  have hrun : recordsOfRun (recordedBy oneLetter) "letter" = [a, b] ++ [c] := by
    rw [hlog]
    simp [recordsOfRun, hruns]
  rw [hrun] at hchain
  obtain ⟨-, hfits, -⟩ := Record.breakAfter?_eq_none_iff.mp
    (Record.firstBreak?_concat_eq_none_iff.mp hchain).2
  exact Option.some.inj (hlink.symm.trans hfits)

end SharedTable

end RunLedger
