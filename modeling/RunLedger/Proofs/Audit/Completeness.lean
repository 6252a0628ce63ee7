/-
  Proofs/Audit/Completeness.lean --- every policy decision of one run has its whole trail.

  WHAT THIS FILE IS FOR.  Whoever asks for the trail of a policy decision of a ledger
  in memory is answered in one of three ways, and which one it is depends on the
  records of the policy decision only: there are none, they are of one run, or they
  are of several.  The chain of the one run is checked on the way.  The check cannot
  fail, since all that requests do to the store is to let it seal records.
-/
import Mathlib.Data.List.Sort
import RunLedger.Proofs.Approval.ByDecision
import RunLedger.Proofs.Audit.Trail
import RunLedger.Proofs.Store.Appended

set_option autoImplicit false

namespace RunLedger

open RunLedger.Text (trim)

namespace MemoryStore

variable {store : MemoryStore} {log : List Record} {decisionId : String}

/-! ## The records of a policy decision -/

/-- These are the records of a policy decision, each once and in read order. -/
structure RecordsOf (store : MemoryStore) (decisionId : String) (records : List Record) : Prop where
  ordered : records.Pairwise Record.IsReadBefore
  mem_iff : ∀ r, r ∈ records ↔ r ∈ store.records ∧ r.carries decisionId = true

/-- These are the runs with records of a policy decision, each once and in the order of their
identifiers. -/
structure RunsOf (store : MemoryStore) (decisionId : String) (runIds : List String) : Prop where
  ascending : runIds.Pairwise (· < ·)
  mem_iff : ∀ runId, runId ∈ runIds ↔
    ∃ r ∈ store.records, r.carries decisionId = true ∧ r.runId = runId

theorem RunsOf.unique {xs ys : List String} (hx : store.RunsOf decisionId xs)
    (hy : store.RunsOf decisionId ys) : xs = ys :=
  hx.ascending.eq_of_mem_iff hy.ascending fun runId =>
    (hx.mem_iff runId).trans (hy.mem_iff runId).symm

theorem RunsOf.eq_nil_iff {runIds : List String} (h : store.RunsOf decisionId runIds) :
    runIds = [] ↔ ∀ r ∈ store.records, r.carries decisionId = false := by
  rw [List.eq_nil_iff_forall_not_mem]
  constructor
  · intro hnone r hr
    refine Bool.eq_false_iff.mpr fun hcarries => ?_
    exact hnone r.runId ((h.mem_iff r.runId).mpr ⟨r, hr, hcarries, rfl⟩)
  · intro hnone runId hrun
    obtain ⟨r, hr, hcarries, -⟩ := (h.mem_iff runId).mp hrun
    rw [hnone r hr] at hcarries
    cases hcarries

/-- The record is the last one of its run. -/
structure IsLastOf (store : MemoryStore) (runId : String) (last : Record) : Prop where
  mem : last ∈ store.records
  runId_eq : last.runId = runId
  last : ∀ r ∈ store.records, r.runId = runId → r.sequence ≤ last.sequence

/-- The trail of a policy decision whose records are of this run. -/
def trailOf (store : MemoryStore) (decisionId runId : String) : DecisionTrail where
  decisionId := decisionId
  runId := runId
  chainHead := (store.run runId).records.getLast?.map Record.hash
  entries := (store.carriersOf decisionId).map (.ofRecord decisionId)

theorem Holds.recordsOf (h : store.Holds log) (decisionId : String) :
    store.RecordsOf decisionId (store.carriersOf decisionId) where
  ordered := h.carriersOf_ordered decisionId
  mem_iff _ := mem_carriersOf

theorem runsOf_carriers (store : MemoryStore) (decisionId : String) :
    store.RunsOf decisionId (runIdsOf (store.carriersOf decisionId)) where
  ascending := runIdsOf_ascending _
  mem_iff runId := by
    rw [mem_runIdsOf]
    simp only [mem_carriersOf, and_assoc]

theorem Holds.exists_isLastOf (h : store.Holds log) (hlog : Sealed log) {runId : String}
    {r : Record} (hr : r ∈ store.records) (hrun : r.runId = runId) :
    ∃ last, store.IsLastOf runId last ∧ (store.run runId).records.getLast? = some last := by
  have hrecords : (store.run runId).records = recordsOfRun log runId := h.run runId
  have hmem {x : Record} : x ∈ (store.run runId).records ↔ x ∈ store.records ∧ x.runId = runId := by
    rw [hrecords, mem_recordsOfRun, h.mem_records]
  have hrising : (store.run runId).records.Pairwise fun a b => a.sequence ≤ b.sequence := by
    rw [hrecords]
    exact ((List.pairwise_map.mp (hlog.places ▸ List.pairwise_lt_range')).imp le_of_lt).filter _
  have hne : (store.run runId).records ≠ [] := List.ne_nil_of_mem (hmem.mpr ⟨hr, hrun⟩)
  obtain ⟨hlisted, hsame⟩ := hmem.mp (List.getLast_mem hne)
  refine ⟨_, ⟨hlisted, hsame, fun x hx hxrun => ?_⟩, List.getLast?_eq_getLast_of_ne_nil hne⟩
  exact hrising.rel_getLast_of_rel_getLast_getLast (hmem.mpr ⟨hx, hxrun⟩) le_rfl

end MemoryStore

/-- The trail tells all that the store holds of its policy decision: it has an entry for each record,
in read order, and its head is that of the one run that the records are of. -/
structure DecisionTrail.Covers (trail : DecisionTrail) (store : MemoryStore) : Prop where
  entries : ∃ records, store.RecordsOf trail.decisionId records ∧
    trail.entries = records.map (.ofRecord trail.decisionId)
  runs : store.RunsOf trail.decisionId [trail.runId]
  head : ∃ last, store.IsLastOf trail.runId last ∧ trail.chainHead = some last.hash

/-- The records of a policy decision that are all of one run are covered by its trail. -/
theorem MemoryStore.Holds.covers_trailOf {store : MemoryStore} {log : List Record}
    {decisionId runId : String} (h : store.Holds log) (hlog : Sealed log)
    (hruns : store.RunsOf decisionId [runId]) : (store.trailOf decisionId runId).Covers store where
  entries := ⟨_, h.recordsOf decisionId, rfl⟩
  runs := hruns
  head := by
    obtain ⟨r, hr, -, hrun⟩ := (hruns.mem_iff runId).mp (List.mem_singleton_self runId)
    obtain ⟨last, hlast, hhead⟩ := h.exists_isLastOf hlog hr hrun
    exact ⟨last, hlast, congrArg (Option.map Record.hash) hhead⟩

namespace Ledger

/-- Whatever has been asked of a fresh ledger, its store holds a sealed log. -/
theorem exists_sealed_log (operations : List (Operation MemoryStore)) :
    ∃ log, (inMemory.after operations).store.Holds log ∧ Sealed log := by
  have hchain := reflTransGen_after stepsOf_accepts inMemory operations
  generalize (inMemory.after operations).store = store at hchain
  induction hchain with
  | refl => exact ⟨[], MemoryStore.holds_empty, sealed_nil⟩
  | tail _ haccepts ih =>
    obtain ⟨log, hholds, hsealed⟩ := ih
    obtain ⟨r, haccepts⟩ := haccepts
    exact ⟨log ++ [r], hholds.append haccepts.appended,
      hholds.sealed_append hsealed haccepts.appended⟩

variable {ledger next : Ledger MemoryStore} {log : List Record} {decisionId : String}

/-- What is answered about a policy decision depends on the runs of its records. -/
theorem decisionTrail_eq_iff (hholds : ledger.store.Holds log) (hlog : Sealed log)
    {answer : Except RequestError DecisionTrail} :
    decisionTrail decisionId ledger = (answer, next) ↔
      (match runIdsOf (ledger.store.carriersOf (trim decisionId)) with
        | [] => .error (.approvalNotFound (trim decisionId) .decisionId)
        | [runId] => .ok (ledger.store.trailOf (trim decisionId) runId)
        | runIds => .error (.scatteredDecision (trim decisionId) runIds)) = answer ∧
      next = ledger := by
  rw [decisionTrail, bind_apply, recordsOfDecision_apply, eq_comm (a := next), ← Prod.mk.injEq]
  dsimp only
  rw [← MemoryStore.carriersOf]
  rcases runIdsOf (ledger.store.carriersOf (trim decisionId)) with _ | ⟨runId, _ | ⟨other, rest⟩⟩
  · rfl
  · have hreport : (checkRun runId : StoreM MemoryStore _) ledger.store =
        (.ok (.ofRecords runId (recordsOfRun log runId)), ledger.store) :=
      (checkRun_eq_ok_iff hholds.readChain_eq).mpr
        ⟨rfl, rfl, _, rfl, hlog.checkChain_eq_ok runId, rfl⟩
    have hrecords : (ledger.store.run runId).records = recordsOfRun log runId := hholds.run runId
    dsimp only
    rw [bind_apply, call_of_unchanged hreport, MemoryStore.trailOf, hrecords]
    rfl
  · rfl

/-- Whatever has been asked of a fresh ledger, in whatever order, and whatever policy decision is
asked about: the ledger stays as it is, and the answer is

* that the policy decision is not known, exactly if no record belongs to it;
* that it is scattered, exactly if records of several runs belong to it, with all these runs;
* its trail, if its records are of one run, and a trail tells all of them.

Other errors do not occur: the check of the chain passes. -/
theorem every_trail_is_complete (operations : List (Operation MemoryStore)) (decisionId : String) :
    (decisionTrail decisionId (inMemory.after operations) =
        (.error (.approvalNotFound (trim decisionId) .decisionId), inMemory.after operations) ↔
      ∀ r ∈ (inMemory.after operations).store.records, r.carries (trim decisionId) = false) ∧
    (∀ runIds, decisionTrail decisionId (inMemory.after operations) =
        (.error (.scatteredDecision (trim decisionId) runIds), inMemory.after operations) ↔
      (inMemory.after operations).store.RunsOf (trim decisionId) runIds ∧ 2 ≤ runIds.length) ∧
    (∀ runId, (∃ trail, trail.runId = runId ∧
        decisionTrail decisionId (inMemory.after operations) =
          (.ok trail, inMemory.after operations)) ↔
      (inMemory.after operations).store.RunsOf (trim decisionId) [runId]) ∧
    (∀ trail next, decisionTrail decisionId (inMemory.after operations) = (.ok trail, next) →
      next = inMemory.after operations ∧ trail.decisionId = trim decisionId ∧
        trail.Covers (inMemory.after operations).store) ∧
    (∀ error next, decisionTrail decisionId (inMemory.after operations) = (.error error, next) →
      next = inMemory.after operations ∧
        (error = .approvalNotFound (trim decisionId) .decisionId ∨
          ∃ runIds, error = .scatteredDecision (trim decisionId) runIds)) := by
  obtain ⟨log, hholds, hlog⟩ := exists_sealed_log operations
  generalize inMemory.after operations = ledger at *
  have hruns := ledger.store.runsOf_carriers (trim decisionId)
  simp only [decisionTrail_eq_iff hholds hlog, ← hruns.eq_nil_iff, and_true]
  generalize runIdsOf (ledger.store.carriersOf (trim decisionId)) = found at hruns ⊢
  rcases found with _ | ⟨runId, _ | ⟨other, rest⟩⟩
  · refine ⟨by simp, fun runIds => ⟨by simp, ?_⟩, fun runId => ⟨by simp, ?_⟩, by simp, ?_⟩
    · rintro ⟨hothers, hlength⟩
      rw [← hruns.unique hothers] at hlength
      cases hlength
    · intro hone
      cases hruns.unique hone
    · rintro error next ⟨⟨⟩, rfl⟩
      exact ⟨rfl, .inl rfl⟩
  · refine ⟨by simp, fun runIds => ⟨by simp, ?_⟩, fun runId' => ⟨?_, ?_⟩, ?_, by simp⟩
    · rintro ⟨hothers, hlength⟩
      rw [← hruns.unique hothers] at hlength
      simp at hlength
    · rintro ⟨trail, rfl, ⟨⟩⟩
      exact hruns
    · intro hone
      exact ⟨_, List.singleton_inj.mp (hruns.unique hone), rfl⟩
    · rintro trail next ⟨⟨⟩, rfl⟩
      exact ⟨rfl, rfl, hholds.covers_trailOf hlog hruns⟩
  · refine ⟨by simp, fun runIds => ⟨?_, ?_⟩, fun runId => ⟨by simp, ?_⟩, by simp, ?_⟩
    · rintro ⟨⟩
      exact ⟨hruns, by simp⟩
    · rintro ⟨hothers, -⟩
      rw [← hruns.unique hothers]
    · intro hone
      cases hruns.unique hone
    · rintro error next ⟨⟨⟩, rfl⟩
      exact ⟨rfl, .inr ⟨_, rfl⟩⟩

/-- A policy decision that one run has asked about twice has its trail, with all three records. -/
theorem policyTwice_has_its_trail :
    ∃ trail, decisionTrail " policy " (inMemory.after policyTwice) =
        (.ok trail, inMemory.after policyTwice) ∧
      trail.decisionId = "policy" ∧ trail.runId = "run" ∧
      trail.Covers (inMemory.after policyTwice).store := by
  obtain ⟨-, -, hone, htrail, -⟩ := every_trail_is_complete policyTwice " policy "
  have hpolicy : trim " policy " = "policy" := by decide +kernel
  have hruns : (inMemory.after policyTwice).store.RunsOf "policy" ["run"] := by
    have hall : ∀ r ∈ policyTwiceStore.records, r.runId = "run" := by decide +kernel
    have hsome : ∃ r ∈ policyTwiceStore.records, r.carries "policy" = true ∧ r.runId = "run" := by
      decide +kernel
    rw [after_policyTwice]
    refine ⟨List.pairwise_singleton _ _, fun runId => ?_⟩
    rw [List.mem_singleton]
    constructor
    · rintro rfl
      exact hsome
    · rintro ⟨r, hr, -, rfl⟩
      exact hall r hr
  rw [hpolicy] at hone htrail
  obtain ⟨trail, hrun, hanswer⟩ := (hone "run").mpr hruns
  obtain ⟨-, hdecision, hcovers⟩ := htrail trail _ hanswer
  exact ⟨trail, hanswer, hdecision, hrun, hcovers⟩

end Ledger

end RunLedger
