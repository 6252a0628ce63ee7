/-
  Proofs/Store/SealedLog.lean --- logs in which every record is as a store made it.

  WHAT THIS FILE IS FOR.  A store makes a record of an event and of what it knows
  of the records before it.  In a log where all records are made like that each
  one has the next place, is marked exactly if an earlier record of its run has a
  later time, and is linked to the record before it in its run.  So the records of
  each run form a chain: a check finds nothing wrong with what a store has made.
-/
import RunLedger.Proofs.Record.Chain
import RunLedger.Proofs.Store.Check
import RunLedger.Proofs.Store.Refinement

set_option autoImplicit false

namespace RunLedger

open RunLedger.Digest (sha256Text)

/-- Each record of the log is what its event becomes behind the records before it. -/
def Sealed (log : List Record) : Prop :=
  ∀ before r after, log = before ++ r :: after → r = nextRecord before r.event

theorem sealed_nil : Sealed [] := by
  intro before r after h
  simp at h

theorem sealed_concat_iff {log : List Record} {r : Record} :
    Sealed (log ++ [r]) ↔ Sealed log ∧ r = nextRecord log r.event := by
  constructor
  · intro h
    refine ⟨fun before x after hsplit => ?_, h log r [] rfl⟩
    exact h before x (after ++ [r]) (by rw [hsplit, List.append_assoc, List.cons_append])
  · rintro ⟨hlog, hlast⟩ before x after hsplit
    rcases List.eq_nil_or_concat after with rfl | ⟨middle, y, rfl⟩
    · obtain ⟨rfl, hx⟩ := List.append_inj' hsplit rfl
      rw [← (List.cons.inj hx).1]
      exact hlast
    · have hparts : log ++ [r] = (before ++ x :: middle) ++ [y] := by simpa using hsplit
      exact hlog before x middle (List.append_inj' hparts rfl).1

theorem Record.hash_nextRecord (log : List Record) (event : Event) :
    (nextRecord log event).hash = sha256Text (nextRecord log event).digested := rfl

namespace Sealed

variable {log before after : List Record} {r : Record}

/-- Places are given one after the other. -/
theorem sequence_eq (h : Sealed (before ++ r :: after)) : r.sequence = before.length + 1 :=
  congrArg Record.sequence (h before r after rfl)

theorem places (h : Sealed log) : log.map Record.sequence = List.range' 1 log.length := by
  induction log using List.reverseRecOn with
  | nil => rfl
  | append_singleton log r ih =>
    rw [List.map_append, ih (sealed_concat_iff.mp h).1, List.map_singleton, h.sequence_eq,
      List.length_append, List.length_singleton, List.range'_concat]
    simp [Nat.add_comm]

theorem sequence_lt (h : Sealed (log ++ [r])) : ∀ x ∈ log, x.sequence < r.sequence := by
  intro x hx
  have hplace : x.sequence ∈ List.range' 1 log.length := by
    rw [← (sealed_concat_iff.mp h).1.places]
    exact List.mem_map_of_mem hx
  have hlast := h.sequence_eq
  have hbounds := List.mem_range'_1.mp hplace
  omega

/-- A record is marked exactly if an earlier record of its run has a later time. -/
theorem integrityWarning_iff (h : Sealed (before ++ r :: after)) :
    r.integrityWarning = true ↔ ∃ x ∈ before, x.runId = r.runId ∧ r.timestamp < x.timestamp := by
  have hmark : r.integrityWarning =
      (RunTip.ofRecords (recordsOfRun before r.runId)).isLaterThan r.timestamp :=
    congrArg Record.integrityWarning (h before r after rfl)
  rw [hmark, RunTip.isLaterThan_ofRecords_iff]
  simp only [mem_recordsOfRun, and_assoc]

/-- A record is linked to the one before it in its run. -/
theorem prevHash_eq (h : Sealed (before ++ r :: after)) :
    r.prevHash = (recordsOfRun before r.runId).getLast?.map Record.hash := by
  rw [← RunTip.lastHash_ofRecords]
  exact congrArg Record.prevHash (h before r after rfl)

/-- A record is linked to the one before it in the listing of its run. -/
theorem prevHash_of_recordsOfRun (h : Sealed log) {runId : String}
    (hsplit : recordsOfRun log runId = before ++ r :: after) :
    r.prevHash = before.getLast?.map Record.hash := by
  obtain ⟨first, rest, rfl, hbefore, hrest⟩ := List.filter_eq_append_iff.mp hsplit
  obtain ⟨skipped, behind, rfl, hskipped, hrun, -⟩ := List.filter_eq_cons_iff.mp hrest
  have hnone : recordsOfRun skipped runId = [] := List.filter_eq_nil_iff.mpr hskipped
  have hlog : Sealed ((first ++ skipped) ++ r :: behind) := by rwa [List.append_assoc]
  have hlink := hlog.prevHash_eq
  rw [beq_iff_eq.mp hrun, recordsOfRun_append, hnone, List.append_nil] at hlink
  rw [hlink, recordsOfRun, hbefore]

/-- The records of a run form a chain. -/
theorem checkChain_eq_ok (h : Sealed log) (runId : String) :
    checkChain (recordsOfRun log runId) = .ok () := by
  rw [checkChain_eq_ok_iff]
  induction log using List.reverseRecOn with
  | nil => rfl
  | append_singleton log r ih =>
    obtain ⟨hlog, hlast⟩ := sealed_concat_iff.mp h
    rw [recordsOfRun_concat]
    by_cases hrun : r.runId = runId
    · subst hrun
      rw [if_pos rfl, Record.firstBreak?_concat_eq_none_iff, Record.breakAfter?_eq_none_iff]
      refine ⟨ih hlog, ?_, ?_, ?_⟩
      · intro last hmem
        simp only [Record.lastOf, Option.or_none, Option.mem_def, Option.map_eq_some_iff] at hmem
        obtain ⟨x, hx, rfl⟩ := hmem
        exact h.sequence_lt x (mem_recordsOfRun.mp (List.mem_of_getLast? hx)).1
      · rw [h.prevHash_eq, Record.lastOf, Option.or_none, Option.map_map]
        rfl
      · rw [hlast, Record.hash_nextRecord]
    · rw [if_neg hrun, List.append_nil]
      exact ih hlog

end Sealed

/-! ## Checking a sealed log -/

/-- The reports are one for each run of the log, in the order of the identifiers: the number of its
records, and the digest of the last of them. -/
structure Summarizes (reports : List ChainReport) (log : List Record) : Prop where
  ascending : (reports.map ChainReport.runId).Pairwise (· < ·)
  runs : ∀ runId, runId ∈ reports.map ChainReport.runId ↔ ∃ r ∈ log, r.runId = runId
  count : ∀ report ∈ reports, report.eventCount = (recordsOfRun log report.runId).length
  head : ∀ report ∈ reports, ∃ last, (recordsOfRun log report.runId).getLast? = some last ∧
    report.headHash = some last.hash

theorem summarizes_ofRecords (log : List Record) :
    Summarizes ((runIdsOf log).map fun runId => .ofRecords runId (recordsOfRun log runId)) log where
  ascending := by
    rw [List.map_map]
    exact (List.map_id (runIdsOf log)).symm ▸ runIdsOf_ascending log
  runs runId := by
    rw [List.map_map]
    exact (List.map_id (runIdsOf log)).symm ▸ mem_runIdsOf
  count := by
    intro report hreport
    obtain ⟨runId, -, rfl⟩ := List.mem_map.mp hreport
    rfl
  head := by
    intro report hreport
    obtain ⟨runId, hrun, rfl⟩ := List.mem_map.mp hreport
    obtain ⟨r, hr, hname⟩ := mem_runIdsOf.mp hrun
    have hne : recordsOfRun log runId ≠ [] :=
      List.ne_nil_of_mem (mem_recordsOfRun.mpr ⟨hr, hname⟩)
    have hlast := List.getLast?_eq_getLast_of_ne_nil hne
    exact ⟨_, hlast, by rw [ChainReport.ofRecords, hlast, Option.map_some]⟩

/-- If a store lists the records of a sealed log, a check of all runs finds nothing wrong. -/
theorem Sealed.exists_checkAllRuns {σ : Type} [EventStore σ] {store : σ} {log : List Record}
    (hlog : Sealed log)
    (hall : (EventStore.readAll : StoreM σ _) store = (.ok (Record.sortForReading log), store))
    (hchain : ∀ runId, (EventStore.readChain runId : StoreM σ _) store =
      (.ok (recordsOfRun log runId), store)) :
    ∃ reports, (checkAllRuns : StoreM σ _) store = (.ok reports, store) ∧
      Summarizes reports log := by
  refine ⟨_, (checkAllRuns_eq_ok_iff hchain hall).mpr ⟨rfl, _, rfl, ?_, ?_⟩,
    summarizes_ofRecords log⟩
  · rw [List.map_map, runIdsOf_congr (Record.sortForReading_perm log)]
    exact List.map_id _
  · intro report hreport
    obtain ⟨runId, -, rfl⟩ := List.mem_map.mp hreport
    exact ⟨_, rfl, hlog.checkChain_eq_ok runId, rfl⟩

end RunLedger
