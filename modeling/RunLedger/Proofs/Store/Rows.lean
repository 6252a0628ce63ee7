/-
  Proofs/Store/Rows.lean --- what is read of a table, whatever is in it.

  WHAT THIS FILE IS FOR.  A row is read or not by itself: rows are listed if each
  of them is a record, and then the listing is those records, one for a row
  (`recordsOf_eq_ok_iff`).  So when the listing of all runs succeeds, no other
  listing fails, and all of them can be told from the rows and one function from
  rows to records (`Table.ReadBy`).
-/
import Mathlib.Data.List.Forall2
import RunLedger.Store.Table

set_option autoImplicit false

namespace RunLedger

/-! ## Rows -/

namespace Row

/-- The row, read by itself, is this record. -/
def ReadsAs (row : Row) (r : Record) : Prop :=
  ∃ mark, row.integrityWarning.toBool? = .ok mark ∧ row.toRecord? mark = .ok r

namespace ReadsAs

variable {row : Row} {r r' : Record}

theorem unique (h : row.ReadsAs r) (h' : row.ReadsAs r') : r = r' := by
  obtain ⟨mark, hmark, hrecord⟩ := h
  obtain ⟨mark', hmark', hrecord'⟩ := h'
  obtain rfl := Except.ok.inj (hmark.symm.trans hmark')
  exact Except.ok.inj (hrecord.symm.trans hrecord')

/-- The payload of the row is that of an event. -/
theorem ofText? (h : row.ReadsAs r) : Event.ofText? row.payload = .ok r.event := by
  obtain ⟨mark, -, hrecord⟩ := h
  unfold toRecord? at hrecord
  split at hrecord
  · cases hrecord
  · split at hrecord
    · rename_i event hevent
      rw [hevent, ← Except.ok.inj hrecord]
    · cases hrecord

/-- A record has the place of its row. -/
theorem sequence (h : row.ReadsAs r) : row.sequence = r.sequence := by
  obtain ⟨mark, -, hrecord⟩ := h
  unfold toRecord? at hrecord
  split at hrecord
  · cases hrecord
  · rename_i hplace
    split at hrecord
    · rw [← Except.ok.inj hrecord]
      exact (Int.toNat_of_nonneg (Int.not_lt.mp hplace)).symm
    · cases hrecord

/-- Under which run a row is kept does not show in its record. -/
theorem moved (h : row.ReadsAs r) (runId : String) : { row with runId := runId }.ReadsAs r := h

end ReadsAs

end Row

theorem recordsOf_cons_eq_ok_iff {row : Row} {rows : List Row} {records : List Record} :
    recordsOf (row :: rows) = .ok records ↔
      ∃ r rest, row.ReadsAs r ∧ recordsOf rows = .ok rest ∧ records = r :: rest := by
  unfold recordsOf Row.ReadsAs
  rw [readMarks]
  cases row.integrityWarning.toBool? with
  | error fault => simp
  | ok mark =>
    cases readMarks rows with
    | error fault => simp [Except.map]
    | ok marked =>
      simp only [Except.map, decodeRows]
      cases hrecord : row.toRecord? mark with
      | error fault => simp [hrecord]
      | ok r => cases decodeRows marked <;> simp [hrecord, eq_comm]

/-- Rows are listed exactly if each of them is a record, as those records. -/
theorem recordsOf_eq_ok_iff {rows : List Row} {records : List Record} :
    recordsOf rows = .ok records ↔ List.Forall₂ Row.ReadsAs rows records := by
  induction rows generalizing records with
  | nil =>
    rw [List.forall₂_nil_left_iff]
    exact ⟨fun h => (Except.ok.inj h).symm, fun h => h ▸ rfl⟩
  | cons row rows ih =>
    rw [recordsOf_cons_eq_ok_iff, List.forall₂_cons_left_iff]
    constructor
    · rintro ⟨r, rest, hrow, hrest, rfl⟩
      exact ⟨r, rest, hrow, ih.mp hrest, rfl⟩
    · rintro ⟨r, rest, hrow, hrest, rfl⟩
      exact ⟨r, rest, hrow, ih.mpr hrest, rfl⟩

/-! ## Listings of a table -/

namespace Table

variable {table : Table} {f : Row → Record} {runId : String}

theorem mem_rowsOf {row : Row} :
    row ∈ table.rowsOf runId ↔ row ∈ table.rows ∧ row.runId = runId := by
  rw [rowsOf, List.mem_filter, beq_iff_eq]

/-- Each row of the table is the record that `f` makes of it. -/
def ReadBy (table : Table) (f : Row → Record) : Prop := ∀ row ∈ table.rows, row.ReadsAs (f row)

/-- When all runs can be listed, each row is a record. -/
theorem exists_readBy {all : List Record} (h : table.readAll = .ok all) : ∃ f, table.ReadBy f := by
  have hrows : ∀ row ∈ table.rows, ∃ r, row.ReadsAs r := by
    intro row hrow
    have hlisted : row ∈ table.rows.mergeSort Row.readsBefore := List.mem_mergeSort.mpr hrow
    obtain ⟨place, hplace, rfl⟩ := List.getElem_of_mem hlisted
    have hread := recordsOf_eq_ok_iff.mp h
    exact ⟨_, hread.get hplace (hread.length_eq ▸ hplace)⟩
  choose! f hf using hrows
  exact ⟨f, hf⟩

namespace ReadBy

variable (h : table.ReadBy f)

include h

/-- Some of the rows are listed as their records. -/
theorem recordsOf_eq {rows : List Row} (hrows : ∀ row ∈ rows, row ∈ table.rows) :
    recordsOf rows = .ok (rows.map f) := by
  rw [recordsOf_eq_ok_iff, List.forall₂_map_right_iff, List.forall₂_same]
  exact fun row hrow => h row (hrows row hrow)

theorem readAll_eq : table.readAll = .ok ((table.rows.mergeSort Row.readsBefore).map f) :=
  h.recordsOf_eq fun _ hrow => List.mem_mergeSort.mp hrow

theorem readRun_eq (runId : String) :
    table.readRun runId = .ok (((table.rowsOf runId).mergeSort Row.readsBefore).map f) :=
  h.recordsOf_eq fun _ hrow => (mem_rowsOf.mp (List.mem_mergeSort.mp hrow)).1

theorem readChain_eq (runId : String) :
    table.readChain runId = .ok (((table.rowsOf runId).mergeSort Row.placedBefore).map f) :=
  h.recordsOf_eq fun _ hrow => (mem_rowsOf.mp (List.mem_mergeSort.mp hrow)).1

end ReadBy

end Table

end RunLedger
