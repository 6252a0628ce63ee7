/-
  Proofs/Store/Alteration.lean --- what a check says of a table that others have changed.

  WHAT THIS FILE IS FOR.  Rows are selected and ordered by their columns; what is
  hashed is their payload.  A check takes the runs from the payloads and the records
  of each run from the columns, and compares neither with the other.  So a check
  that finds nothing wrong says what the readers of the table see exactly if the
  columns agree with the payloads: if each row is kept under the run of its payload,
  and the rows of a run are ordered by their time columns as they are by their
  hashed times.  What the store itself writes agrees.  A row that is moved to
  another run is listed as before and looked at by no check.
-/
import Mathlib.Data.Prod.Lex
import RunLedger.Proofs.Store.SealedLog
import RunLedger.Store.Change

set_option autoImplicit false

namespace RunLedger

/-! ## Orders -/

/-- Two keys by which one list is sorted, each different for different members, put the members in
the same order. -/
theorem le_iff_le_of_pairwise {α β γ : Type} [LinearOrder β] [LinearOrder γ] {k : α → β}
    {l : α → γ} {xs : List α} (hk : xs.Pairwise fun a b => k a ≤ k b)
    (hl : xs.Pairwise fun a b => l a ≤ l b) (hkinj : ∀ a ∈ xs, ∀ b ∈ xs, k a = k b → a = b)
    (hlinj : ∀ a ∈ xs, ∀ b ∈ xs, l a = l b → a = b) :
    ∀ a ∈ xs, ∀ b ∈ xs, (k a ≤ k b ↔ l a ≤ l b) := by
  induction xs with
  | nil => simp
  | cons x xs ih =>
    obtain ⟨hkx, hkxs⟩ := List.pairwise_cons.mp hk
    obtain ⟨hlx, hlxs⟩ := List.pairwise_cons.mp hl
    have hrest := ih hkxs hlxs (fun a ha b hb => hkinj a (.tail x ha) b (.tail x hb))
      fun a ha b hb => hlinj a (.tail x ha) b (.tail x hb)
    intro a ha b hb
    rcases List.mem_cons.mp ha with rfl | ha'
    · rcases List.mem_cons.mp hb with rfl | hb'
      · exact iff_of_true le_rfl le_rfl
      · exact iff_of_true (hkx b hb') (hlx b hb')
    · rcases List.mem_cons.mp hb with rfl | hb'
      · constructor
        · intro h
          exact le_of_eq (congrArg l (hkinj a ha b hb (le_antisymm h (hkx a ha'))))
        · intro h
          exact le_of_eq (congrArg k (hlinj a ha b hb (le_antisymm h (hlx a ha'))))
      · exact hrest a ha' b hb'

/-- By what records are read: by time, and those of one time by their place. -/
def Record.readKey (r : Record) : Time.Instant ×ₗ Nat := toLex (r.timestamp, r.sequence)

theorem Record.readsBefore_iff_readKey {a b : Record} :
    a.readsBefore b = true ↔ a.readKey ≤ b.readKey := by
  rw [readsBefore_iff, readKey, readKey, Prod.Lex.toLex_le_toLex]

theorem Record.sequence_eq_of_readKey {a b : Record} (h : a.readKey = b.readKey) :
    a.sequence = b.sequence :=
  (Prod.mk.inj (toLex.injective h)).2

namespace Row

/-- By what rows are ordered: by the text in their time column, and those with one text by their
place. -/
def readKey (row : Row) : String ×ₗ Int := toLex (row.timestamp, row.sequence)

theorem readsBefore_iff_readKey {a b : Row} : a.readsBefore b = true ↔ a.readKey ≤ b.readKey := by
  rw [readKey, readKey, Prod.Lex.toLex_le_toLex]
  simp [readsBefore]

theorem sequence_eq_of_readKey {a b : Row} (h : a.readKey = b.readKey) : a.sequence = b.sequence :=
  (Prod.mk.inj (toLex.injective h)).2

theorem pairwise_readKey (rows : List Row) :
    (rows.mergeSort readsBefore).Pairwise fun a b => a.readKey ≤ b.readKey := by
  refine pairwise_mergeSort_of_key ?_ rows
  exact readsBefore_iff_readKey

end Row

namespace Table

variable {table next : Table} {f : Row → Record} {reports : List ChainReport}

/-! ## Places -/

/-- No two rows have the same place. -/
def PlacesDiffer (table : Table) : Prop := (table.rows.map Row.sequence).Nodup

theorem le_foldl_top (rows : List Row) (start : Int) :
    start ≤ rows.foldl (fun top row => max top row.sequence) start ∧
      ∀ row ∈ rows, row.sequence ≤ rows.foldl (fun top row => max top row.sequence) start := by
  induction rows generalizing start with
  | nil => simp
  | cons first rest ih =>
    obtain ⟨hstart, hrest⟩ := ih (max start first.sequence)
    refine ⟨le_trans (le_max_left _ _) hstart, List.forall_mem_cons.mpr ⟨?_, hrest⟩⟩
    exact le_trans (le_max_right _ _) hstart

theorem le_top {row : Row} (hrow : row ∈ table.rows) : row.sequence ≤ table.top :=
  (le_foldl_top table.rows table.placed).2 row hrow

theorem ne_of_refuseClash {others : List Row} {row : Row} (h : refuseClash others row = .ok ()) :
    ∀ other ∈ others, other.sequence ≠ row.sequence := by
  intro other hother heq
  have htaken : (others.any fun other => other.sequence == row.sequence) = true :=
    List.any_eq_true.mpr ⟨other, hother, beq_iff_eq.mpr heq⟩
  rw [refuseClash, if_pos htaken] at h
  cases h

namespace PlacesDiffer

theorem eq_of_sequence (h : table.PlacesDiffer) {a b : Row} (ha : a ∈ table.rows)
    (hb : b ∈ table.rows) (heq : a.sequence = b.sequence) : a = b :=
  List.inj_on_of_nodup_map h ha hb heq

/-- The table refuses a change that would give two rows one place. -/
theorem change (h : table.PlacesDiffer) {sequence : Int} {column : Column} {value : CellValue}
    {count : Nat} (hchange : table.change sequence column value = .ok (count, next)) :
    next.PlacesDiffer := by
  unfold Table.change at hchange
  split at hchange
  · obtain ⟨-, rfl⟩ := Prod.mk.inj (Except.ok.inj hchange)
    exact h
  · rename_i old _
    cases hrow : old.change column value with
    | error refusal =>
      rw [hrow] at hchange
      cases hchange
    | ok row =>
      cases hclash : refuseClash (table.without sequence) row with
      | error refusal =>
        rw [hrow, Decode.ok_bind, hclash] at hchange
        cases hchange
      | ok =>
        rw [hrow, Decode.ok_bind, hclash] at hchange
        obtain ⟨-, rfl⟩ := Prod.mk.inj (Except.ok.inj hchange)
        have hkept : ∀ other ∈ table.rows, other.sequence ≠ sequence →
            other.sequence ≠ row.sequence := by
          intro other hother hne
          exact ne_of_refuseClash hclash other (List.mem_filter.mpr ⟨hother, bne_iff_ne.mpr hne⟩)
        rw [PlacesDiffer, List.map_map, List.nodup_iff_pairwise_ne, List.pairwise_map]
        refine (List.pairwise_map.mp h).imp_of_mem fun {a b} ha hb hne => ?_
        -- at most one of two rows is the changed one, and it has a place that no other row has
        simp only [Function.comp_apply]
        split
        · rename_i hachanged
          rw [if_neg fun hbchanged => hne (hachanged.trans hbchanged.symm)]
          exact (hkept b hb fun hbchanged => hne (hachanged.trans hbchanged.symm)).symm
        · rename_i hakept
          split
          · exact hkept a ha hakept
          · exact hne

theorem remove (h : table.PlacesDiffer) (sequence : Int) :
    (table.remove sequence).2.PlacesDiffer :=
  List.Nodup.sublist (List.filter_sublist.map Row.sequence) h

/-- A recorded event gets a place behind all others. -/
theorem append {store : DurableStore} (h : store.table.PlacesDiffer) (event : Event) :
    (store.append event).2.table.PlacesDiffer := by
  rcases happend : store.append event with ⟨error | r, next⟩
  · obtain ⟨head, hlearn⟩ := DurableStore.append_eq_error happend
    unfold DurableStore.learnHead at hlearn
    split at hlearn
    · rw [← (Prod.mk.inj hlearn).2]
      exact h
    · rw [← (Prod.mk.inj hlearn).2]
      exact h
  · obtain ⟨head, place, -, hplace, -, hr, rfl⟩ := DurableStore.append_eq_ok happend
    unfold nextPlace? at hplace
    split at hplace
    · cases hplace
    · have hsequence : r.sequence = (store.table.top + 1).toNat := by
        rw [hr, ← Option.some.inj hplace]
        rfl
      rw [PlacesDiffer, List.map_append, List.nodup_append]
      refine ⟨h, by simp, ?_⟩
      intro old hold new hnew
      obtain ⟨row, hrow, rfl⟩ := List.mem_map.mp hold
      obtain rfl : new = r.sequence := by simpa using hnew
      have hle := le_top hrow
      omega

end PlacesDiffer

/-! ## Columns -/

/-- The columns by which rows are selected and ordered agree with what is hashed. -/
structure ColumnsAgree (table : Table) : Prop where
  /-- each row is kept under the run of its payload -/
  run : ∀ row ∈ table.rows, ∀ r, row.ReadsAs r → row.runId = r.runId
  /-- the rows of a run are ordered as their records are by the hashed times -/
  order : ∀ a ∈ table.rows, ∀ b ∈ table.rows, a.runId = b.runId → ∀ ra rb, a.ReadsAs ra →
    b.ReadsAs rb → a.readsBefore b = ra.readsBefore rb

/-- What is read of the table is what a check with these reports has looked at. -/
structure ReadsAsChecked (table : Table) (reports : List ChainReport) : Prop where
  /-- every record is in the chain of a reported run -/
  listed : ∀ all, table.readAll = .ok all → ∀ r ∈ all,
    ∃ report ∈ reports, ∃ chain, table.readChain report.runId = .ok chain ∧ r ∈ chain
  /-- the chain of a reported run holds records of that run -/
  owned : ∀ report ∈ reports, ∀ chain, table.readChain report.runId = .ok chain →
    ∀ r ∈ chain, r.runId = report.runId
  /-- a reported run is read as its chain in the order of the hashed times -/
  ordered : ∀ report ∈ reports, ∀ chain, table.readChain report.runId = .ok chain →
    table.readRun report.runId = .ok (Record.sortForReading chain)

theorem Holds.placesDiffer {log : List Record} (h : table.Holds log) : table.PlacesDiffer := by
  rw [PlacesDiffer, h.rows, List.map_map, List.nodup_iff_pairwise_ne, List.pairwise_map]
  exact h.ordered.imp fun hlt heq => Nat.ne_of_lt hlt (Int.ofNat.inj heq)

/-- What the store writes agrees. -/
theorem Holds.columnsAgree {log : List Record} (h : table.Holds log)
    (hlegible : ∀ r ∈ log, r.Legible) : table.ColumnsAgree where
  run := by
    intro row hrow r hr
    rw [h.rows] at hrow
    obtain ⟨x, hx, rfl⟩ := List.mem_map.mp hrow
    rw [hr.unique (Row.readsAs_ofRecord (hlegible x hx)), Row.runId_ofRecord]
  order := by
    intro a ha b hb _ ra rb hra hrb
    rw [h.rows] at ha hb
    obtain ⟨x, hx, rfl⟩ := List.mem_map.mp ha
    obtain ⟨y, hy, rfl⟩ := List.mem_map.mp hb
    rw [hra.unique (Row.readsAs_ofRecord (hlegible x hx)),
      hrb.unique (Row.readsAs_ofRecord (hlegible y hy))]
    exact Row.readsBefore_ofRecord (hlegible x hx) (hlegible y hy)

/-- A check finds nothing wrong with what the store has written. -/
theorem Holds.exists_checkAllRuns {log : List Record} (h : table.Holds log) (hlog : Sealed log)
    (hlegible : ∀ r ∈ log, r.Legible) :
    ∃ reports, (checkAllRuns : StoreM DurableStore _) (.ofTable table) =
      (.ok reports, .ofTable table) ∧ Summarizes reports log := by
  refine hlog.exists_checkAllRuns (congrArg (·, _) (h.readAll_eq hlegible)) fun runId => ?_
  exact congrArg (·, _) (h.readChain_eq fun r hr => hlegible r (mem_recordsOfRun.mp hr).1)

/-- The table of a log. -/
def ofLog (log : List Record) : Table := ⟨log.map Row.ofRecord, log.length⟩

theorem holds_ofLog {log : List Record} (h : Sealed log) : (ofLog log).Holds log :=
  ⟨rfl, h.places, rfl⟩

section

variable (hplaces : table.PlacesDiffer) (h : table.ReadBy f)

include h

theorem ReadBy.mem_readAll {all : List Record} (hall : table.readAll = .ok all) {r : Record} :
    r ∈ all ↔ ∃ row ∈ table.rows, f row = r := by
  rw [← Except.ok.inj (h.readAll_eq.symm.trans hall), List.mem_map]
  simp only [List.mem_mergeSort]

theorem ReadBy.mem_readChain {runId : String} {chain : List Record}
    (hchain : table.readChain runId = .ok chain) {r : Record} :
    r ∈ chain ↔ ∃ row ∈ table.rows, row.runId = runId ∧ f row = r := by
  rw [← Except.ok.inj ((h.readChain_eq runId).symm.trans hchain), List.mem_map]
  simp only [List.mem_mergeSort, mem_rowsOf, and_assoc]

/-- The runs that a check reports are those of the payloads. -/
theorem ReadBy.exists_report {all : List Record} (hall : table.readAll = .ok all)
    (hruns : reports.map ChainReport.runId = runIdsOf all) {row : Row} (hrow : row ∈ table.rows) :
    ∃ report ∈ reports, report.runId = (f row).runId := by
  have hrun : (f row).runId ∈ reports.map ChainReport.runId := by
    rw [hruns, mem_runIdsOf]
    exact ⟨f row, (h.mem_readAll hall).mpr ⟨row, hrow, rfl⟩, rfl⟩
  exact List.mem_map.mp hrun

include hplaces

theorem ReadBy.eq_of_sequence_eq {a b : Row} (ha : a ∈ table.rows) (hb : b ∈ table.rows)
    (heq : (f a).sequence = (f b).sequence) : a = b := by
  refine hplaces.eq_of_sequence ha hb ?_
  rw [(h a ha).sequence, (h b hb).sequence, heq]

/-- The record of a row is in the chain of a run exactly if the row is kept under the run. -/
theorem ReadBy.record_mem_readChain_iff {runId : String} {chain : List Record}
    (hchain : table.readChain runId = .ok chain) {row : Row} (hrow : row ∈ table.rows) :
    f row ∈ chain ↔ row.runId = runId := by
  rw [h.mem_readChain hchain]
  constructor
  · rintro ⟨other, hother, hrun, heq⟩
    rw [← h.eq_of_sequence_eq hplaces hother hrow (congrArg Record.sequence heq), hrun]
  · exact fun hrun => ⟨row, hrow, hrun, rfl⟩

/-- The chain of a run, put in the order of the hashed times, is what is read of the run, exactly if
its rows are ordered by their columns as its records are by these times. -/
theorem ReadBy.readRun_eq_sortForReading_iff {runId : String} {chain : List Record}
    (hchain : table.readChain runId = .ok chain) :
    table.readRun runId = .ok (Record.sortForReading chain) ↔
      ∀ a ∈ table.rowsOf runId, ∀ b ∈ table.rowsOf runId,
        a.readsBefore b = (f a).readsBefore (f b) := by
  have hrow : ∀ row ∈ table.rowsOf runId, row ∈ table.rows := fun row hrow => (mem_rowsOf.mp hrow).1
  constructor
  · intro hlisted
    rw [h.readRun_eq] at hlisted
    -- the listing is sorted by the columns, and its records are sorted by their times
    have hsorted : (((table.rowsOf runId).mergeSort Row.readsBefore).map f).Pairwise
        fun a b => a.readKey ≤ b.readKey := by
      rw [Except.ok.inj hlisted]
      exact (Record.sortForReading_pairwise _).imp Record.readsBefore_iff_readKey.mp
    rw [List.pairwise_map] at hsorted
    have hlistedRow : ∀ row ∈ (table.rowsOf runId).mergeSort Row.readsBefore, row ∈ table.rows :=
      fun row hmem => hrow row (List.mem_mergeSort.mp hmem)
    have hkeys := le_iff_le_of_pairwise (Row.pairwise_readKey _) hsorted
      (fun a ha b hb heq => hplaces.eq_of_sequence (hlistedRow a ha) (hlistedRow b hb)
        (Row.sequence_eq_of_readKey heq))
      (fun a ha b hb heq => h.eq_of_sequence_eq hplaces (hlistedRow a ha) (hlistedRow b hb)
        (Record.sequence_eq_of_readKey heq))
    intro a ha b hb
    rw [Bool.eq_iff_iff, Row.readsBefore_iff_readKey, Record.readsBefore_iff_readKey]
    exact hkeys a (List.mem_mergeSort.mpr ha) b (List.mem_mergeSort.mpr hb)
  · intro horder
    have hsame : ((table.rowsOf runId).mergeSort Row.readsBefore).map f =
        Record.sortForReading ((table.rowsOf runId).map f) := List.map_mergeSort horder
    have hperm : ((table.rowsOf runId).map f).Perm chain := by
      rw [← Except.ok.inj ((h.readChain_eq runId).symm.trans hchain)]
      exact (List.mergeSort_perm _ _).symm.map f
    have hdiffer : (((table.rowsOf runId).map f).map Record.sequence).Nodup := by
      have hkept : ((table.rowsOf runId).map Row.sequence).Nodup :=
        hplaces.sublist (List.filter_sublist.map _)
      rw [List.map_map]
      refine List.Nodup.map_on ?_ (hkept.of_map _)
      intro a ha b hb heq
      exact h.eq_of_sequence_eq hplaces (hrow a ha) (hrow b hb) heq
    rw [h.readRun_eq, hsame, Record.sortForReading_congr hperm hdiffer]

/-- If the columns agree, what is read is what has been checked. -/
theorem ColumnsAgree.readsAsChecked {all : List Record} (hcolumns : table.ColumnsAgree)
    (hall : table.readAll = .ok all) (hruns : reports.map ChainReport.runId = runIdsOf all) :
    table.ReadsAsChecked reports where
  listed := by
    intro all' hall' r hr
    obtain ⟨row, hrow, rfl⟩ := (h.mem_readAll hall').mp hr
    obtain ⟨report, hreport, hrun⟩ := h.exists_report hall hruns hrow
    have hchain := h.readChain_eq report.runId
    refine ⟨report, hreport, _, hchain, (h.record_mem_readChain_iff hplaces hchain hrow).mpr ?_⟩
    rw [hrun, hcolumns.run row hrow _ (h row hrow)]
  owned := by
    intro report _ chain hchain r hr
    obtain ⟨row, hrow, hrun, rfl⟩ := (h.mem_readChain hchain).mp hr
    rw [← hrun, hcolumns.run row hrow _ (h row hrow)]
  ordered := by
    intro report _ chain hchain
    refine (h.readRun_eq_sortForReading_iff hplaces hchain).mpr fun a ha b hb => ?_
    obtain ⟨harow, harun⟩ := mem_rowsOf.mp ha
    obtain ⟨hbrow, hbrun⟩ := mem_rowsOf.mp hb
    exact hcolumns.order a harow b hbrow (harun.trans hbrun.symm) _ _ (h a harow) (h b hbrow)

/-- If what is read is what has been checked, the columns agree. -/
theorem ReadsAsChecked.columnsAgree {all : List Record} (hreads : table.ReadsAsChecked reports)
    (hall : table.readAll = .ok all) (hruns : reports.map ChainReport.runId = runIdsOf all) :
    table.ColumnsAgree := by
  have hrun : ∀ row ∈ table.rows, row.runId = (f row).runId := by
    intro row hrow
    obtain ⟨report, hreport, chain, hchain, hmem⟩ :=
      hreads.listed all hall (f row) ((h.mem_readAll hall).mpr ⟨row, hrow, rfl⟩)
    rw [(h.record_mem_readChain_iff hplaces hchain hrow).mp hmem,
      hreads.owned report hreport chain hchain _ hmem]
  refine ⟨fun row hrow r hr => hr.unique (h row hrow) ▸ hrun row hrow, ?_⟩
  intro a ha b hb hsame ra rb hra hrb
  rw [hra.unique (h a ha), hrb.unique (h b hb)]
  obtain ⟨report, hreport, hname⟩ := h.exists_report hall hruns ha
  have hchain := h.readChain_eq report.runId
  have harun : a.runId = report.runId := (hrun a ha).trans hname.symm
  exact (h.readRun_eq_sortForReading_iff hplaces hchain).mp (hreads.ordered report hreport _ hchain)
    a (mem_rowsOf.mpr ⟨ha, harun⟩) b (mem_rowsOf.mpr ⟨hb, hsame.symm.trans harun⟩)

end

end Table

/-! ## A table under a store -/

/-- What may befall a table: a store that is open on it is handed an event or is opened again, or
others change a cell or take a row away. -/
inductive DurableStore.Befalls (store : DurableStore) : DurableStore → Prop where
  | append (event : Event) : store.Befalls (store.append event).2
  | reopen : store.Befalls store.reopen
  | change {sequence : Int} {column : Column} {value : CellValue} {count : Nat} {table : Table} :
    store.table.change sequence column value = .ok (count, table) →
      store.Befalls { store with table := table }
  | remove (sequence : Int) :
    store.Befalls { store with table := (store.table.remove sequence).2 }

/-- Whatever befalls a table, no two of its rows get one place. -/
theorem DurableStore.placesDiffer_of_befalls {store next : DurableStore}
    (hall : Relation.ReflTransGen Befalls store next) (h : store.table.PlacesDiffer) :
    next.table.PlacesDiffer := by
  induction hall with
  | refl => exact h
  | @tail middle last _ hstep ih =>
    cases hstep with
    | append event => exact ih.append event
    | reopen => exact ih
    | change hchange => exact ih.change hchange
    | remove sequence => exact ih.remove sequence

/-! ## A policy decision, and a row that was moved -/

/-- What a policy decided, five milliseconds after the epoch. -/
def policyEvent (details : String) : Event :=
  { Event.plain "policy" "run" (Time.Instant.epoch.addMillis 5) .decision .system "Refund"
      details with
    approval := { Approval.notRequired with decisionId := some "D1" } }

/-- The policy decision, and an action of the same run that is recorded after it although it was
earlier. -/
def policyLog : List Record :=
  let decided := nextRecord [] (policyEvent "Requires approval.").normalized
  [decided, nextRecord [decided] firstAction.normalized]

theorem sealed_policyLog : Sealed policyLog :=
  sealed_concat_iff.mpr ⟨sealed_concat_iff.mpr ⟨sealed_nil, rfl⟩, rfl⟩

theorem legible_policyEvent (details : String) :
    (StoreCall.append (policyEvent details)).Legible := by
  have hexact : (Time.Instant.epoch.addMillis 5).toMicros.HasExactText := by decide +kernel
  exact StoreCall.legible_append_of_none hexact rfl rfl

theorem legible_policyLog : ∀ r ∈ policyLog, r.Legible := by
  have hfirst : (StoreCall.append firstAction).Legible :=
    StoreCall.legible_append_of_none (by decide +kernel) rfl rfl
  simp only [policyLog, List.forall_mem_cons]
  exact ⟨(legible_policyEvent _).record rfl, hfirst.record rfl, by simp⟩

/-- The record of the policy decision with other words in it, and the digest that it had. -/
def forgedRecord : Record :=
  { nextRecord [] (policyEvent "Requires approval.").normalized with
    event := (policyEvent "Approved.").normalized }

/-- A table with the row of that record, kept under another run. -/
def forgedTable : Table := ⟨[{ Row.ofRecord forgedRecord with runId := "elsewhere" }], 1⟩

theorem readBy_forgedTable : forgedTable.ReadBy fun _ => forgedRecord := by
  have hlegible : forgedRecord.Legible := (legible_policyEvent _).record rfl
  intro row hrow
  obtain rfl := List.mem_singleton.mp hrow
  exact (Row.readsAs_ofRecord hlegible).moved "elsewhere"

theorem readAll_forgedTable : forgedTable.readAll = .ok [forgedRecord] := by
  rw [readBy_forgedTable.readAll_eq, forgedTable, List.mergeSort_singleton, List.map_singleton]

/-- The run of the policy decision has no rows any more. -/
theorem readChain_forgedTable : forgedTable.readChain "run" = .ok [] := by
  have hnone : forgedTable.rowsOf "run" = [] := by decide
  rw [Table.readChain, hnone, List.mergeSort_nil]
  rfl

/-! ## What a check says -/

/-- In a table in which no two rows have one place, whoever has written it, a check that succeeds
has looked at the runs of all payloads: for each of them, its rows in the order of their places are
records that form a chain, and the same records are read for the run.  What is read of the table is
what has been checked exactly if the columns agree with the payloads. -/
theorem checked_table_reads_as_checked_iff {store next : DurableStore} {reports : List ChainReport}
    (hplaces : store.table.PlacesDiffer)
    (hcheck : (checkAllRuns : StoreM DurableStore _) store = (.ok reports, next)) :
    next = store ∧
      (∃ all, store.table.readAll = .ok all ∧ reports.map ChainReport.runId = runIdsOf all) ∧
      (∀ report ∈ reports, report.Attests store.table.readChain ∧
        ∃ chain listed, store.table.readChain report.runId = .ok chain ∧
          store.table.readRun report.runId = .ok listed ∧ listed.Perm chain) ∧
      (store.table.ReadsAsChecked reports ↔ store.table.ColumnsAgree) := by
  obtain ⟨rfl, all, hall, hruns, hattest⟩ :=
    (checkAllRuns_eq_ok_iff (fun _ => rfl) rfl).mp hcheck
  obtain ⟨f, hf⟩ := Table.exists_readBy hall
  refine ⟨rfl, ⟨all, hall, hruns⟩, fun report hreport => ⟨hattest report hreport, ?_⟩, ?_, ?_⟩
  · refine ⟨_, _, hf.readChain_eq report.runId, hf.readRun_eq report.runId, ?_⟩
    exact ((List.mergeSort_perm _ _).trans (List.mergeSort_perm _ _).symm).map f
  · exact fun hreads => hreads.columnsAgree hplaces hf hall hruns
  · exact fun hcolumns => hcolumns.readsAsChecked hplaces hf hall hruns

theorem policyTable_reads_as_checked :
    ∃ reports next, (Table.ofLog policyLog).PlacesDiffer ∧
      (checkAllRuns : StoreM DurableStore _) (.ofTable (.ofLog policyLog)) = (.ok reports, next) ∧
      (Table.ofLog policyLog).ReadsAsChecked reports := by
  have hholds := Table.holds_ofLog sealed_policyLog
  obtain ⟨reports, hcheck, -⟩ := hholds.exists_checkAllRuns sealed_policyLog legible_policyLog
  refine ⟨reports, _, hholds.placesDiffer, hcheck, ?_⟩
  exact (checked_table_reads_as_checked_iff hholds.placesDiffer hcheck).2.2.2.mpr
    (hholds.columnsAgree legible_policyLog)

/-- A check finds nothing wrong with the table of the moved row, and has not looked at it. -/
theorem moved_row_passes_check :
    ∃ reports next,
      (checkAllRuns : StoreM DurableStore _) (.ofTable forgedTable) = (.ok reports, next) ∧
        ¬ forgedTable.ReadsAsChecked reports := by
  have hcheck : (checkAllRuns : StoreM DurableStore _) (.ofTable forgedTable) =
      (.ok [⟨"run", 0, none⟩], .ofTable forgedTable) := by
    refine (checkAllRuns_eq_ok_iff (fun _ => rfl) rfl).mpr
      ⟨rfl, _, readAll_forgedTable, (runIdsOf_singleton forgedRecord).symm, ?_⟩
    exact List.forall_mem_singleton.mpr ⟨[], readChain_forgedTable, rfl, rfl⟩
  refine ⟨_, _, hcheck, fun hreads => ?_⟩
  obtain ⟨report, hreport, chain, hchain, hmem⟩ :=
    hreads.listed _ readAll_forgedTable _ List.mem_cons_self
  obtain rfl := List.mem_singleton.mp hreport
  rw [← Except.ok.inj (readChain_forgedTable.symm.trans hchain)] at hmem
  cases hmem

end RunLedger
