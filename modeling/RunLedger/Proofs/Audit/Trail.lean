/-
  Proofs/Audit/Trail.lean --- what the trail of a policy decision is made of.

  WHAT THIS FILE IS FOR.  A trail takes its entries from the listing of all runs,
  and its run from their payloads; what is checked is the chain that the table
  keeps under that run.  The two are read one after the other and never compared.
  So the records of the entries are checked ones exactly if their rows are kept
  under the run of the trail: a row that was moved to another run is put on the
  trail although no check has looked at it.
-/
import RunLedger.Audit.Trail
import RunLedger.Proofs.Ledger.Legible
import RunLedger.Proofs.Store.Alteration

set_option autoImplicit false

namespace RunLedger

open RunLedger.Text (trim)

/-! ## What a trail is made of -/

namespace DecisionTrail

/-- The trail is made of the records that belong to its policy decision, among all that are listed,
and of a checked chain: the records belong to one run, which has this chain. -/
structure MadeOf (trail : DecisionTrail) (all chain : List Record) : Prop where
  entries : trail.entries =
    (all.filter fun r => r.carries trail.decisionId).map (.ofRecord trail.decisionId)
  runs : runIdsOf (all.filter fun r => r.carries trail.decisionId) = [trail.runId]
  checked : checkChain chain = .ok ()
  head : trail.chainHead = chain.getLast?.map Record.hash

/-- Each entry is that of one of these records. -/
def TakenFrom (trail : DecisionTrail) (chain : List Record) : Prop :=
  ∀ entry ∈ trail.entries, ∃ r ∈ chain, entry = .ofRecord trail.decisionId r

namespace MadeOf

variable {trail : DecisionTrail} {all chain : List Record}

theorem runId_eq (h : trail.MadeOf all chain) {r : Record} (hr : r ∈ all)
    (hcarries : r.carries trail.decisionId = true) : r.runId = trail.runId := by
  have hrun : r.runId ∈ runIdsOf (all.filter fun r => r.carries trail.decisionId) :=
    mem_runIdsOf.mpr ⟨r, List.mem_filter.mpr ⟨hr, hcarries⟩, rfl⟩
  rw [h.runs] at hrun
  exact List.mem_singleton.mp hrun

theorem takenFrom (h : trail.MadeOf all chain)
    (hchain : ∀ r ∈ all, r.carries trail.decisionId = true → r ∈ chain) :
    trail.TakenFrom chain := by
  intro entry hentry
  rw [h.entries] at hentry
  obtain ⟨r, hr, rfl⟩ := List.mem_map.mp hentry
  obtain ⟨hlisted, hcarries⟩ := List.mem_filter.mp hr
  exact ⟨r, hchain r hlisted hcarries, rfl⟩

end MadeOf

end DecisionTrail

namespace Ledger

section

variable {σ : Type} {ledger next : Ledger σ} {decisionId : String}
  {trail : DecisionTrail} {all : Except StoreError (List Record)}
  {chain : String → Except StoreError (List Record)}

/-- A call that leaves the store as it is leaves the ledger as it is. -/
theorem call_of_unchanged {α : Type} {c : StoreM σ α} {answer : Except StoreError α}
    (h : c ledger.store = (answer, ledger.store)) :
    call c ledger = (answer.mapError RequestError.store, ledger) := by
  unfold call
  rw [h]
  cases answer <;> rfl

variable [EventStore σ]

/-- A trail is given exactly if all runs can be listed and the records of the policy decision belong
to one run, whose listing is a chain. -/
theorem decisionTrail_eq_ok_iff
    (hall : (EventStore.readAll : StoreM σ _) ledger.store = (all, ledger.store))
    (hchain : ∀ runId, (EventStore.readChain runId : StoreM σ _) ledger.store =
      (chain runId, ledger.store)) :
    (decisionTrail decisionId : LedgerM σ _) ledger = (.ok trail, next) ↔
      next = ledger ∧ trail.decisionId = trim decisionId ∧
        ∃ listed checked, all = .ok listed ∧ chain trail.runId = .ok checked ∧
          trail.MadeOf listed checked := by
  constructor
  · intro htrail
    obtain ⟨records, middle, hrecords, hrest⟩ := bind_eq_ok_iff.mp htrail
    obtain ⟨listed, hlisted, rfl⟩ := exists_of_bind_pure hrecords
    obtain ⟨hok, -⟩ := Prod.mk.inj (hall.symm.trans (eq_ok_of_call hlisted))
    rw [call_of_unchanged hall] at hlisted
    obtain ⟨-, rfl⟩ := Prod.mk.inj hlisted
    rcases hruns : runIdsOf (listed.filter fun r => r.carries (trim decisionId)) with
      _ | ⟨runId, _ | ⟨other, rest⟩⟩
    · rw [hruns] at hrest
      cases (Prod.mk.inj hrest).1
    · rw [hruns] at hrest
      obtain ⟨report, hreport, rfl⟩ := exists_of_bind_pure hrest
      have hcheck := eq_ok_of_call hreport
      obtain ⟨hstore, rfl, records, hrecords, hchecked, hsummary⟩ :=
        (checkRun_eq_ok_iff hchain).mp hcheck
      rw [call_of_unchanged (hcheck.trans (by rw [hstore]))] at hreport
      obtain ⟨-, rfl⟩ := Prod.mk.inj hreport
      refine ⟨rfl, rfl, listed, records, hok, hrecords, rfl, hruns, hchecked, ?_⟩
      exact congrArg ChainReport.headHash hsummary
    · rw [hruns] at hrest
      cases (Prod.mk.inj hrest).1
  · rintro ⟨rfl, hdecision, listed, checked, rfl, hchecked, hmade⟩
    have hrecords : (recordsOfDecision (trim decisionId) : LedgerM σ _) next =
        (.ok (listed.filter fun r => r.carries trail.decisionId), next) := by
      rw [recordsOfDecision, bind_apply, call_of_unchanged hall, hdecision]
      rfl
    have hreport : (checkRun trail.runId : StoreM σ _) next.store =
        (.ok (.ofRecords trail.runId checked), next.store) :=
      (checkRun_eq_ok_iff hchain).mpr ⟨rfl, rfl, checked, hchecked, hmade.checked, rfl⟩
    rw [decisionTrail, bind_apply, hrecords]
    dsimp only
    rw [hmade.runs]
    dsimp only
    rw [bind_apply, call_of_unchanged hreport, ← hdecision, ← hmade.entries]
    have hhead : (ChainReport.ofRecords trail.runId checked).headHash = trail.chainHead :=
      hmade.head.symm
    show (Except.ok (⟨trail.decisionId, trail.runId, _, trail.entries⟩ : DecisionTrail), next) = _
    rw [hhead]

end

end Ledger

/-! ## Trails of a table -/

namespace Table

variable {table : Table} {decisionId runId : String} {trail : DecisionTrail}
  {all chain : List Record}

/-- All rows that belong to the policy decision are kept under this run. -/
def KeepsDecision (table : Table) (decisionId runId : String) : Prop :=
  ∀ row ∈ table.rows, ∀ r, row.ReadsAs r → r.carries decisionId = true → row.runId = runId

/-- The records of a policy decision are in the chain of a run exactly if their rows are kept under
it. -/
theorem PlacesDiffer.forall_mem_chain_iff (hplaces : table.PlacesDiffer)
    (hall : table.readAll = .ok all) (hchain : table.readChain runId = .ok chain) :
    (∀ r ∈ all, r.carries decisionId = true → r ∈ chain) ↔
      table.KeepsDecision decisionId runId := by
  obtain ⟨f, hf⟩ := exists_readBy hall
  constructor
  · intro hmem row hrow r hr hcarries
    obtain rfl := hr.unique (hf row hrow)
    have hlisted : f row ∈ all := (hf.mem_readAll hall).mpr ⟨row, hrow, rfl⟩
    exact (hf.record_mem_readChain_iff hplaces hchain hrow).mp (hmem _ hlisted hcarries)
  · intro hkeeps r hr hcarries
    obtain ⟨row, hrow, rfl⟩ := (hf.mem_readAll hall).mp hr
    exact (hf.record_mem_readChain_iff hplaces hchain hrow).mpr
      (hkeeps row hrow _ (hf row hrow) hcarries)

/-- If the columns agree with the payloads, the rows of a policy decision with a trail are kept
under the run of the trail. -/
theorem ColumnsAgree.keepsDecision (h : table.ColumnsAgree) (hall : table.readAll = .ok all)
    (hmade : trail.MadeOf all chain) : table.KeepsDecision trail.decisionId trail.runId := by
  obtain ⟨f, hf⟩ := exists_readBy hall
  intro row hrow r hr hcarries
  have hlisted : r ∈ all :=
    (hf.mem_readAll hall).mpr ⟨row, hrow, (hf row hrow).unique hr⟩
  rw [h.run row hrow r hr, hmade.runId_eq hlisted hcarries]

end Table

namespace Ledger

/-- The trail of a policy decision, read from a table in which no two rows have one place, whoever
has written it, has an entry for each listed record that belongs to the policy decision; these are
of one run, and the chain of this run has been checked.  The records of the entries are in the
checked chain exactly if their rows are kept under the run; then each entry is that of a checked
record. -/
theorem trail_is_checked_iff {ledger next : Ledger DurableStore} {decisionId : String}
    {trail : DecisionTrail} (hplaces : ledger.store.table.PlacesDiffer)
    (htrail : decisionTrail decisionId ledger = (.ok trail, next)) :
    next = ledger ∧ trail.decisionId = trim decisionId ∧
      ∃ all chain, ledger.store.table.readAll = .ok all ∧
        ledger.store.table.readChain trail.runId = .ok chain ∧ trail.MadeOf all chain ∧
        ((∀ r ∈ all, r.carries trail.decisionId = true → r ∈ chain) ↔
          ledger.store.table.KeepsDecision trail.decisionId trail.runId) ∧
        (ledger.store.table.KeepsDecision trail.decisionId trail.runId →
          trail.TakenFrom chain) := by
  obtain ⟨hnext, hdecision, all, chain, hall, hchain, hmade⟩ :=
    (decisionTrail_eq_ok_iff rfl fun _ => rfl).mp htrail
  have hiff : (∀ r ∈ all, r.carries trail.decisionId = true → r ∈ chain) ↔
      ledger.store.table.KeepsDecision trail.decisionId trail.runId :=
    hplaces.forall_mem_chain_iff hall hchain
  refine ⟨hnext, hdecision, all, chain, hall, hchain, hmade, hiff, fun hkeeps => ?_⟩
  exact hmade.takenFrom (hiff.mpr hkeeps)

/-- The trail of the policy decision, which is the first of its run. -/
def policyTrail : DecisionTrail where
  decisionId := "D1"
  runId := "run"
  chainHead := (recordsOfRun policyLog "run").getLast?.map Record.hash
  entries := [.ofRecord "D1" (nextRecord [] (policyEvent "Requires approval.").normalized)]

theorem policyTrail_madeOf :
    policyTrail.MadeOf (Record.sortForReading policyLog) (recordsOfRun policyLog "run") := by
  -- only the first of the two records belongs to the policy decision
  have hcarriers : (Record.sortForReading policyLog).filter (fun r => r.carries "D1") =
      [nextRecord [] (policyEvent "Requires approval.").normalized] :=
    List.perm_singleton.mp ((Record.sortForReading_perm policyLog).filter _)
  refine ⟨?_, ?_, sealed_policyLog.checkChain_eq_ok "run", rfl⟩
  · exact (congrArg (List.map (TrailEntry.ofRecord "D1")) hcarriers).symm
  · exact (congrArg runIdsOf hcarriers).trans (runIdsOf_singleton _)

theorem policyTrail_is_checked :
    ∃ next chain, (Table.ofLog policyLog).PlacesDiffer ∧
      decisionTrail "D1" (.on (DurableStore.ofTable (.ofLog policyLog))) =
        (.ok policyTrail, next) ∧
      (Table.ofLog policyLog).readChain policyTrail.runId = .ok chain ∧
      policyTrail.TakenFrom chain := by
  have hholds := Table.holds_ofLog sealed_policyLog
  have hall := hholds.readAll_eq legible_policyLog
  have hchain : (Table.ofLog policyLog).readChain "run" = .ok (recordsOfRun policyLog "run") :=
    hholds.readChain_eq fun r hr => legible_policyLog r (mem_recordsOfRun.mp hr).1
  have htrail : decisionTrail "D1" (.on (DurableStore.ofTable (.ofLog policyLog))) =
      (.ok policyTrail, .on (.ofTable (.ofLog policyLog))) :=
    (decisionTrail_eq_ok_iff rfl fun _ => rfl).mpr
      ⟨rfl, by decide, _, _, hall, hchain, policyTrail_madeOf⟩
  obtain ⟨-, -, all, chain, hlisted, hchecked, hmade, -, htaken⟩ :=
    trail_is_checked_iff hholds.placesDiffer htrail
  refine ⟨_, chain, hholds.placesDiffer, htrail, hchecked, htaken ?_⟩
  exact (hholds.columnsAgree legible_policyLog).keepsDecision hlisted hmade

/-- The trail with the row that was moved and forged. -/
def forgedTrail : DecisionTrail where
  decisionId := "D1"
  runId := "run"
  chainHead := none
  entries := [.ofRecord "D1" forgedRecord]

/-- The row that was moved and forged is put on the trail of its policy decision, and no record has
been checked. -/
theorem moved_row_is_on_trail :
    ∃ next, decisionTrail "D1" (.on (DurableStore.ofTable forgedTable)) = (.ok forgedTrail, next) ∧
      forgedTable.readChain forgedTrail.runId = .ok [] ∧ ¬ forgedTrail.TakenFrom [] := by
  have hmade : forgedTrail.MadeOf [forgedRecord] [] :=
    ⟨rfl, runIdsOf_singleton forgedRecord, rfl, rfl⟩
  have htrail : decisionTrail "D1" (.on (DurableStore.ofTable forgedTable)) =
      (.ok forgedTrail, .on (.ofTable forgedTable)) :=
    (decisionTrail_eq_ok_iff rfl fun _ => rfl).mpr
      ⟨rfl, by decide, _, _, readAll_forgedTable, readChain_forgedTable, hmade⟩
  refine ⟨_, htrail, readChain_forgedTable, fun htaken => ?_⟩
  obtain ⟨r, hr, -⟩ := htaken _ (List.mem_singleton_self _)
  cases hr

end Ledger

end RunLedger
