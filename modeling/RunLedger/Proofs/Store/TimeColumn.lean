/-
  Proofs/Store/TimeColumn.lean --- what the texts of a time column say.

  WHAT THIS FILE IS FOR.  A table keeps times as texts.  It orders rows by comparing
  these texts byte by byte, and takes the latest of them for the latest time.  The
  texts of instants without what is finer than a microsecond, in years with four
  digits, are all of one length, and are read back and ordered as the instants are
  as they are written.  That is as the instants are, leap seconds included, unless
  a leap second is off the minute.  So what is found by comparing texts is what
  would be found by comparing instants, as long as all leap seconds end a minute.
-/
import RunLedger.Proofs.Store.Alteration
import RunLedger.Proofs.Text.Bytes

set_option autoImplicit false

namespace RunLedger

open RunLedger.Text (bytes fixedDigits)
open RunLedger.Time (Instant)

namespace Time.Instant.HasExactText

variable {s t : Instant}

theorem bytes_lt_iff (hs : s.HasExactText) (ht : t.HasExactText) :
    bytes s.format < bytes t.format ↔ s < t := by
  rw [Text.bytes_lt_bytes_iff, format_lt_format_iff hs ht]

theorem format_le_iff (hs : s.HasExactText) (ht : t.HasExactText) : s.format ≤ t.format ↔ s ≤ t := by
  rw [← not_lt, ← not_lt, format_lt_format_iff ht hs]

end Time.Instant.HasExactText

theorem Text.length_fixedDigits (width n : Nat) : (fixedDigits width n).length = width := by
  induction width generalizing n with
  | zero => rfl
  | succ width ih => rw [fixedDigits, List.length_append, ih, List.length_singleton]

/-- All of these texts are equally long. -/
theorem Time.Instant.HasExactText.length_format {t : Instant} (h : t.HasExactText) :
    t.format.length = 27 := by
  rw [format, String.length_ofList, formatChars_eq h.year]
  simp [Text.length_fixedDigits]

namespace Table

/-- The rows have the exact texts of these times in their time columns. -/
def KeepsTimes (rows : List Row) (time : Row → Instant) : Prop :=
  ∀ row ∈ rows, (time row).HasExactText ∧ row.timestamp = (time row).format

variable {rows : List Row} {time : Row → Instant}

/-- Rows that are ordered by their texts are ordered by their times. -/
theorem KeepsTimes.pairwise_mergeSort (h : KeepsTimes rows time) :
    (rows.mergeSort Row.readsBefore).Pairwise fun a b =>
      time a < time b ∨ (time a = time b ∧ a.sequence ≤ b.sequence) := by
  refine (Row.pairwise_readKey rows).imp_of_mem fun {a b} ha hb hle => ?_
  obtain ⟨hatime, hatext⟩ := h a (List.mem_mergeSort.mp ha)
  obtain ⟨hbtime, hbtext⟩ := h b (List.mem_mergeSort.mp hb)
  rw [Row.readKey, Row.readKey, Prod.Lex.toLex_le_toLex, hatext, hbtext,
    Instant.format_lt_format_iff hatime hbtime, Instant.format_inj hatime hbtime] at hle
  exact hle

/-- The latest text is that of the latest time. -/
theorem KeepsTimes.latestText_eq (h : KeepsTimes rows time) :
    latestText rows = (rows.map time).max?.map Instant.format := by
  have hlatest := latestText_spec rows
  cases hfound : latestText rows with
  | none =>
    rw [hfound] at hlatest
    obtain rfl : rows = [] := hlatest
    rfl
  | some text =>
    rw [hfound] at hlatest
    obtain ⟨⟨row, hrow, rfl⟩, hlast⟩ := hlatest
    obtain ⟨htime, htext⟩ := h row hrow
    have hmax : (rows.map time).max? = some (time row) := by
      refine List.max?_eq_some_iff.mpr ⟨List.mem_map_of_mem hrow, fun t ht => ?_⟩
      obtain ⟨row', hrow', rfl⟩ := List.mem_map.mp ht
      obtain ⟨htime', htext'⟩ := h row' hrow'
      have hle := String.not_lt.mp (hlast row' hrow')
      rwa [htext, htext', htime'.format_le_iff htime] at hle
    rw [hmax, htext]
    rfl

/-- The head of a run has the latest of its times. -/
theorem KeepsTimes.head_eq {table : Table} {runId : String}
    (h : KeepsTimes (table.rowsOf runId) time) :
    table.head runId =
      .ok ⟨((table.rowsOf runId).map time).max?, lastHash (table.rowsOf runId)⟩ := by
  unfold head
  dsimp only
  rw [h.latestText_eq]
  cases hmax : ((table.rowsOf runId).map time).max? with
  | none => rfl
  | some t =>
    obtain ⟨row, hrow, rfl⟩ := List.mem_map.mp (List.max?_mem hmax)
    simp only [Option.map_some, Instant.parse?_format (h row hrow).1]

/-- The rows have these times, of years with four digits and without what is finer than a microsecond,
written in their time columns. -/
def WritesTimes (rows : List Row) (time : Row → Instant) : Prop :=
  ∀ row ∈ rows, (time row).toMicros = time row ∧ (time row).HasPlainYear ∧
    row.timestamp = (time row).format

/-- What is kept of written times is the times as they are written. -/
theorem WritesTimes.keepsTimes (h : WritesTimes rows time) :
    KeepsTimes rows fun row => (time row).asWritten := by
  intro row hrow
  obtain ⟨hmicros, hyear, htext⟩ := h row hrow
  exact ⟨Instant.hasExactText_asWritten hmicros hyear, htext.trans (time row).format_asWritten.symm⟩

/-- Instants without what is finer than a microsecond, in years with four digits, have texts of one
length, which are read as the instants as they are written and are in the order of these, byte by
byte.  An instant is as it is written exactly if it is not in a leap second off the minute.  Rows
with such times in their time columns are in the order of the times as they are written when they
are ordered by the texts, and the latest text of a run tells the latest of these. -/
theorem texts_are_ordered_as_instants (s t : Instant) (hs : s.toMicros = s) (ht : t.toMicros = t)
    (hsyear : s.HasPlainYear) (htyear : t.HasPlainYear) :
    Instant.parse? t.format = some t.asWritten ∧ (t.asWritten = t ↔ t.OnMinute) ∧
    t.format.length = s.format.length ∧
    (bytes s.format < bytes t.format ↔ s.asWritten < t.asWritten) ∧
    ∀ (table : Table) (runId : String) (time : Row → Instant), WritesTimes table.rows time →
      ((table.rows.mergeSort Row.readsBefore).Pairwise fun a b =>
        (time a).asWritten < (time b).asWritten ∨
          ((time a).asWritten = (time b).asWritten ∧ a.sequence ≤ b.sequence)) ∧
      latestText (table.rowsOf runId) =
        ((table.rowsOf runId).map fun row => (time row).asWritten).max?.map Instant.format ∧
      table.head runId =
        .ok ⟨((table.rowsOf runId).map fun row => (time row).asWritten).max?,
          lastHash (table.rowsOf runId)⟩ := by
  have hsexact := Instant.hasExactText_asWritten hs hsyear
  have htexact := Instant.hasExactText_asWritten ht htyear
  refine ⟨Instant.parse?_format_eq ht htyear, Instant.asWritten_eq_self_iff, ?_, ?_, ?_⟩
  · rw [← t.format_asWritten, ← s.format_asWritten, htexact.length_format, hsexact.length_format]
  · rw [← t.format_asWritten, ← s.format_asWritten, hsexact.bytes_lt_iff htexact]
  · intro table runId time h
    have hall := h.keepsTimes
    have hrun : KeepsTimes (table.rowsOf runId) fun row => (time row).asWritten :=
      fun row hrow => hall row (mem_rowsOf.mp hrow).1
    exact ⟨hall.pairwise_mergeSort, hrun.latestText_eq, hrun.head_eq⟩

/-- A quarter of the way through the leap second at the end of 2016. -/
def leapSecond : Instant := ⟨1483228799, 1250000000, by decide⟩

/-- The start of 2017. -/
def newYear : Instant := { Instant.epoch with seconds := 1483228800 }

/-- A row for the new year, and behind it one for the leap second before. -/
def newYearTable : Table :=
  ⟨[⟨1, "run", "party", newYear.format, "", .whole 0, none, ""⟩,
    ⟨2, "run", "toast", leapSecond.format, "", .whole 0, none, ""⟩], 2⟩

/-- The leap second comes before the new year, as text and in the head of the run. -/
theorem leap_second_is_before_new_year :
    Instant.parse? newYear.format = some newYear ∧
      bytes leapSecond.format < bytes newYear.format ∧
      ∃ hash, newYearTable.head "run" = .ok ⟨some newYear, hash⟩ := by
  obtain ⟨hread, hwritten, -, horder, htable⟩ := texts_are_ordered_as_instants leapSecond newYear
    (by decide +kernel) (by decide +kernel) (by decide +kernel) (by decide +kernel)
  have htimes : WritesTimes newYearTable.rows
      fun row => if row.sequence = 1 then newYear else leapSecond := by
    unfold WritesTimes
    decide +kernel
  obtain ⟨-, -, hhead⟩ := htable newYearTable "run" _ htimes
  have hlatest : ((newYearTable.rowsOf "run").map fun row =>
      (if row.sequence = 1 then newYear else leapSecond).asWritten).max? = some newYear := by
    decide +kernel
  rw [hlatest] at hhead
  rw [hwritten.mpr (by decide)] at hread
  exact ⟨hread, horder.mpr (by decide +kernel), _, hhead⟩

/-- A leap second off the minute comes before the second after it, but its text comes behind one of
that second, and is read as another instant. -/
theorem beat_texts_are_out_of_order :
    (offBeat.toMicros = offBeat ∧ offBeat.HasPlainYear) ∧
      (nextBeat.toMicros = nextBeat ∧ nextBeat.HasPlainYear) ∧
      offBeat < nextBeat ∧ bytes nextBeat.format < bytes offBeat.format ∧
      Instant.parse? offBeat.format ≠ some offBeat := by
  decide +kernel

end Table

end RunLedger
