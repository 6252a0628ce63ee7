/-
  Proofs/Store/DurableLog.lean --- a durable store as one log.

  WHAT THIS FILE IS FOR.  The rows of the table of a durable store are those of
  the records that it has put there, in the order in which they were recorded:
  `DurableStore.Holds` says so of a log.  As long as all events of the log are
  legible, the rows are read back as the records of the log, sorted by their texts
  as the records are by their times, and what is read of a run for the next record
  is what its records make of an empty head.
-/
import Mathlib.Data.List.Range
import RunLedger.Proofs.Event.Decode
import RunLedger.Proofs.Store.MemoryLog
import RunLedger.Proofs.Store.Rows
import RunLedger.Store.Durable

set_option autoImplicit false

namespace RunLedger

open RunLedger.Time (Instant)

namespace Record

/-- The record is read back from its row: its event is normalized, its times belong to years with
four digits, its leap seconds end a minute, and the text of its confidence is read back. -/
structure Legible (r : Record) : Prop where
  normal : r.event.normalized = r.event
  years : r.event.HasPlainYears
  leaps : r.event.LeapsOnMinute
  confidence : r.event.ConfidenceReadsBack

namespace Legible

variable {r a b : Record}

theorem hasExactText (h : r.Legible) : r.timestamp.HasExactText :=
  (Event.hasExactTexts h.normal h.years h.leaps).timestamp

theorem parse?_format (h : r.Legible) : Instant.parse? r.timestamp.format = some r.timestamp :=
  Instant.parse?_format h.hasExactText

theorem format_lt_iff (ha : a.Legible) (hb : b.Legible) :
    a.timestamp.format < b.timestamp.format ↔ a.timestamp < b.timestamp :=
  Instant.format_lt_format_iff ha.hasExactText hb.hasExactText

theorem format_inj (ha : a.Legible) (hb : b.Legible) :
    a.timestamp.format = b.timestamp.format ↔ a.timestamp = b.timestamp :=
  Instant.format_inj ha.hasExactText hb.hasExactText

theorem ofText?_payload (h : r.Legible) :
    Event.ofText? r.event.payload.canonical = .ok r.event := by
  rw [Event.ofText?_payload h.normal h.confidence h.years, Event.asWritten_of_leapsOnMinute h.leaps]

end Legible

/-- The record with its event as it is written. -/
def asWritten (r : Record) : Record := { r with event := r.event.asWritten }

theorem legible_asWritten {r : Record} (hnormal : r.event.normalized = r.event)
    (hyears : r.event.HasPlainYears) (hconfidence : r.event.ConfidenceReadsBack) :
    r.asWritten.Legible where
  normal := Event.normalized_asWritten hnormal
  years := hyears.asWritten
  leaps := r.event.leapsOnMinute_asWritten
  confidence := hconfidence

end Record

/-! ## Rows -/

namespace Row

variable {r : Record}

@[simp] theorem timestamp_ofRecord (r : Record) : (ofRecord r).timestamp = r.timestamp.format := rfl

@[simp] theorem runId_ofRecord (r : Record) : (ofRecord r).runId = r.runId := rfl

@[simp] theorem eventId_ofRecord (r : Record) : (ofRecord r).eventId = r.eventId := rfl

@[simp] theorem sequence_ofRecord (r : Record) : (ofRecord r).sequence = r.sequence := rfl

/-- A row does not tell a leap second off the minute from the second after it. -/
theorem ofRecord_asWritten (r : Record) : ofRecord r.asWritten = ofRecord r := by
  have htime : r.asWritten.timestamp.format = r.timestamp.format := r.timestamp.format_asWritten
  have hpayload : r.asWritten.event.payload = r.event.payload := r.event.payload_asWritten
  rw [ofRecord, htime, hpayload]
  rfl

theorem toRecord?_ofRecord (h : r.Legible) : (ofRecord r).toRecord? r.integrityWarning = .ok r := by
  have hplace : ¬ (r.sequence : Int) < 0 := by omega
  unfold toRecord? ofRecord
  dsimp only
  rw [if_neg hplace, h.ofText?_payload]
  rfl

theorem toBool?_ofRecord (r : Record) :
    (ofRecord r).integrityWarning.toBool? = .ok r.integrityWarning := by
  cases hwarning : r.integrityWarning <;> simp [ofRecord, hwarning, Cell.toBool?]

theorem readsAs_ofRecord (h : r.Legible) : (ofRecord r).ReadsAs r :=
  ⟨_, toBool?_ofRecord r, toRecord?_ofRecord h⟩

theorem toRecord?_ofRecord_error {fault : Decode.Fault}
    (h : Event.ofText? r.event.payload.canonical = .error fault) (mark : Bool) :
    (ofRecord r).toRecord? mark = .error (.corruptRecord r.sequence (.badPayload fault)) := by
  have hplace : ¬ (r.sequence : Int) < 0 := by omega
  unfold toRecord? ofRecord
  dsimp only
  rw [if_neg hplace, h]
  rfl

/-- Rows are in the order of their texts as records are in the order of their times. -/
theorem readsBefore_ofRecord {a b : Record} (ha : a.Legible) (hb : b.Legible) :
    (ofRecord a).readsBefore (ofRecord b) = a.readsBefore b := by
  have hlt := ha.format_lt_iff hb
  have heq := ha.format_inj hb
  rw [Bool.eq_iff_iff]
  simp [readsBefore, Record.readsBefore, ofRecord, hlt, heq]

end Row

theorem readMarks_map (rs : List Record) :
    readMarks (rs.map Row.ofRecord) =
      .ok (rs.map fun r => (Row.ofRecord r, r.integrityWarning)) := by
  induction rs with
  | nil => rfl
  | cons r rs ih =>
    rw [List.map_cons, readMarks, Row.toBool?_ofRecord, ih]
    rfl

/-- The rows of legible records are read in the order of the records. -/
theorem mergeSort_map {rs : List Record} (h : ∀ r ∈ rs, r.Legible) :
    (rs.map Row.ofRecord).mergeSort Row.readsBefore =
      (Record.sortForReading rs).map Row.ofRecord := by
  refine (List.map_mergeSort fun a ha b hb => ?_).symm
  exact (Row.readsBefore_ofRecord (h a ha) (h b hb)).symm

/-- The rows of legible records are read back. -/
theorem recordsOf_map {rs : List Record} (h : ∀ r ∈ rs, r.Legible) :
    recordsOf (rs.map Row.ofRecord) = .ok rs := by
  rw [recordsOf_eq_ok_iff, List.forall₂_map_left_iff, List.forall₂_same]
  exact fun r hr => Row.readsAs_ofRecord (h r hr)

/-- Leap seconds that are read of a table end a minute. -/
theorem leapsOnMinute_of_recordsOf {rows : List Row} {records : List Record}
    (h : recordsOf rows = .ok records) : ∀ r ∈ records, r.event.LeapsOnMinute := by
  have hread := recordsOf_eq_ok_iff.mp h
  induction hread with
  | nil => simp
  | cons hrow hrest ih =>
    have hfirst := Event.leapsOnMinute_of_ofText? hrow.ofText?
    exact List.forall_mem_cons.mpr ⟨hfirst, ih (recordsOf_eq_ok_iff.mpr hrest)⟩

/-! ## Latest times -/

/-- The text in the time column that comes last is that of some row, and no row has a later one. -/
theorem Table.latestText_spec (rows : List Row) :
    match Table.latestText rows with
    | none => rows = []
    | some text => (∃ row ∈ rows, row.timestamp = text) ∧ ∀ row ∈ rows, ¬ text < row.timestamp := by
  induction rows with
  | nil => rfl
  | cons row rows ih =>
    unfold latestText
    cases hrest : latestText rows with
    | none =>
      rw [hrest] at ih
      obtain rfl : rows = [] := ih
      refine ⟨⟨row, List.mem_cons_self, rfl⟩, fun x hx => ?_⟩
      rw [List.mem_singleton.mp hx]
      exact String.lt_irrefl _
    | some text =>
      rw [hrest] at ih
      dsimp only at ih ⊢
      obtain ⟨⟨row', hrow', rfl⟩, hle⟩ := ih
      split
      · rename_i hlt
        refine ⟨⟨row', List.mem_cons_of_mem row hrow', rfl⟩, ?_⟩
        intro x hx
        rcases List.mem_cons.mp hx with rfl | hx
        · exact String.lt_asymm hlt
        · exact hle x hx
      · rename_i hge
        refine ⟨⟨row, List.mem_cons_self, rfl⟩, ?_⟩
        intro x hx
        rcases List.mem_cons.mp hx with rfl | hx
        · exact String.lt_irrefl _
        · refine String.not_lt.mpr (String.le_trans (String.not_lt.mp (hle x hx)) ?_)
          exact String.not_lt.mp hge

/-- The text that comes last is that of the latest time. -/
theorem Table.latestText_map {rs : List Record} (h : ∀ r ∈ rs, r.Legible) :
    Table.latestText (rs.map Row.ofRecord) =
      (RunTip.ofRecords rs).lastTimestamp.map Instant.format := by
  have htext := Table.latestText_spec (rs.map Row.ofRecord)
  have htime := RunTip.isLatest_ofRecords rs
  cases hlast : (RunTip.ofRecords rs).lastTimestamp with
  | none =>
    rw [hlast] at htime
    obtain rfl : rs = [] := htime
    rfl
  | some t =>
    rw [hlast] at htime
    obtain ⟨⟨r, hr, rfl⟩, hle⟩ := htime
    cases hfound : latestText (rs.map Row.ofRecord) with
    | none =>
      rw [hfound] at htext
      obtain rfl : rs = [] := List.map_eq_nil_iff.mp htext
      cases hr
    | some text =>
      rw [hfound] at htext
      obtain ⟨⟨row, hrow, rfl⟩, hlatest⟩ := htext
      obtain ⟨r', hr', rfl⟩ := List.mem_map.mp hrow
      have hnot := hlatest (Row.ofRecord r) (List.mem_map_of_mem hr)
      rw [Row.timestamp_ofRecord, Row.timestamp_ofRecord, (h r' hr').format_lt_iff (h r hr)] at hnot
      have heq : r'.timestamp = r.timestamp := le_antisymm (hle r' hr') (not_lt.mp hnot)
      rw [Row.timestamp_ofRecord, heq, Option.map_some]

/-! ## Tables -/

/-- The records of a run. -/
def recordsOfRun (log : List Record) (runId : String) : List Record :=
  log.filter fun r => r.runId == runId

theorem mem_recordsOfRun {log : List Record} {runId : String} {r : Record} :
    r ∈ recordsOfRun log runId ↔ r ∈ log ∧ r.runId = runId := by
  rw [recordsOfRun, List.mem_filter, beq_iff_eq]

theorem recordsOfRun_append (log more : List Record) (runId : String) :
    recordsOfRun (log ++ more) runId = recordsOfRun log runId ++ recordsOfRun more runId :=
  List.filter_append ..

theorem recordsOfRun_concat (log : List Record) (r : Record) (runId : String) :
    recordsOfRun (log ++ [r]) runId =
      recordsOfRun log runId ++ if r.runId = runId then [r] else [] := by
  by_cases h : r.runId = runId
  · simp [recordsOfRun, h]
  · simp [recordsOfRun, h]

namespace Table

variable {table : Table} {log : List Record}

/-- The rows of the table are those of a log, put there one after the other. -/
structure Holds (table : Table) (log : List Record) : Prop where
  rows : table.rows = log.map Row.ofRecord
  places : log.map Record.sequence = List.range' 1 log.length
  placed : table.placed = log.length

theorem holds_empty : empty.Holds [] := ⟨rfl, rfl, rfl⟩

namespace Holds

theorem rowsOf (h : table.Holds log) (runId : String) :
    table.rowsOf runId = (recordsOfRun log runId).map Row.ofRecord := by
  rw [Table.rowsOf, h.rows, List.filter_map]
  rfl

theorem place_le (h : table.Holds log) {r : Record} (hr : r ∈ log) : r.sequence ≤ log.length := by
  have hplace : r.sequence ∈ List.range' 1 log.length := h.places ▸ List.mem_map_of_mem hr
  have := List.mem_range'_1.mp hplace
  omega

/-- The records of a log are in the order of their places. -/
theorem ordered (h : table.Holds log) : log.Pairwise fun a b => a.sequence < b.sequence := by
  have hrange : (List.range' 1 log.length).Pairwise (· < ·) := List.pairwise_lt_range'
  rw [← h.places, List.pairwise_map] at hrange
  exact hrange

theorem ordered_run (h : table.Holds log) (runId : String) :
    ((recordsOfRun log runId).map Row.ofRecord).Pairwise fun a b => a.placedBefore b = true := by
  rw [List.pairwise_map]
  refine (h.ordered.sublist List.filter_sublist).imp fun hlt => ?_
  exact decide_eq_true (Int.ofNat_le.mpr (Nat.le_of_lt hlt))

theorem top (h : table.Holds log) : table.top = log.length := by
  have hkeeps : ∀ rows : List Row, (∀ row ∈ rows, row.sequence ≤ log.length) →
      rows.foldl (fun top row => max top row.sequence) (log.length : Int) = log.length := by
    intro rows hrows
    induction rows with
    | nil => rfl
    | cons row rows ih =>
      rw [List.foldl_cons, Int.max_eq_left (hrows row List.mem_cons_self)]
      exact ih fun row' hrow' => hrows row' (List.mem_cons_of_mem row hrow')
  rw [Table.top, h.placed, h.rows]
  refine hkeeps _ fun row hrow => ?_
  obtain ⟨r, hr, rfl⟩ := List.mem_map.mp hrow
  have := h.place_le hr
  rw [Row.sequence_ofRecord]
  omega

theorem nextPlace?_eq (h : table.Holds log) :
    table.nextPlace? = if lastPlace ≤ log.length then none else some ((log.length : Int) + 1) := by
  rw [Table.nextPlace?, h.top]

theorem holds_iff (h : table.Holds log) {runId eventId : String} :
    table.holds runId eventId = true ↔ ∃ r ∈ log, r.runId = runId ∧ r.eventId = eventId := by
  simp [Table.holds, h.rows]

/-- The next record is put behind the others. -/
theorem put (h : table.Holds log) {r : Record} (hplace : r.sequence = log.length + 1) :
    (Table.mk (table.rows ++ [Row.ofRecord r]) (log.length + 1)).Holds (log ++ [r]) where
  rows := by rw [h.rows, List.map_append, List.map_singleton]
  places := by
    rw [List.map_append, h.places, List.map_singleton, hplace, List.length_append,
      List.length_singleton, List.range'_concat]
    simp [Nat.add_comm]
  placed := by simp

/-- The rows are also those of the records as they are written. -/
theorem asWritten (h : table.Holds log) : table.Holds (log.map Record.asWritten) where
  rows := by
    rw [h.rows, List.map_map]
    exact List.map_congr_left fun r _ => (Row.ofRecord_asWritten r).symm
  places := by
    rw [List.map_map, List.length_map, ← h.places]
    rfl
  placed := by rw [h.placed, List.length_map]

/-! ## Reading -/

section

variable (h : table.Holds log)

include h

theorem readAll_eq (hlegible : ∀ r ∈ log, r.Legible) :
    table.readAll = .ok (Record.sortForReading log) := by
  rw [Table.readAll, h.rows, mergeSort_map hlegible]
  exact recordsOf_map fun r hr => hlegible r (Record.mem_sortForReading.mp hr)

variable {runId : String} (hlegible : ∀ r ∈ recordsOfRun log runId, r.Legible)

include hlegible

theorem readRun_eq :
    table.readRun runId = .ok (Record.sortForReading (recordsOfRun log runId)) := by
  rw [Table.readRun, h.rowsOf, mergeSort_map hlegible]
  exact recordsOf_map fun r hr => hlegible r (Record.mem_sortForReading.mp hr)

theorem readChain_eq : table.readChain runId = .ok (recordsOfRun log runId) := by
  rw [Table.readChain, h.rowsOf, List.mergeSort_of_pairwise (h.ordered_run runId)]
  exact recordsOf_map hlegible

/-- What the columns of a run say of its head is what its records make of an empty one. -/
theorem head_eq : table.head runId = .ok (RunTip.ofRecords (recordsOfRun log runId)) := by
  have hhash : Table.lastHash ((recordsOfRun log runId).map Row.ofRecord) =
      (RunTip.ofRecords (recordsOfRun log runId)).lastHash := by
    rw [Table.lastHash, List.mergeSort_of_pairwise (h.ordered_run runId), RunTip.lastHash_ofRecords,
      List.getLast?_map, Option.map_map]
    rfl
  have hlatest := RunTip.isLatest_ofRecords (recordsOfRun log runId)
  unfold Table.head
  rw [h.rowsOf]
  dsimp only
  rw [hhash, Table.latestText_map hlegible]
  clear hhash
  generalize RunTip.ofRecords (recordsOfRun log runId) = tip at hlatest ⊢
  rcases tip with ⟨last, hash⟩
  cases last with
  | none => rfl
  | some t =>
    obtain ⟨⟨r, hr, rfl⟩, -⟩ := hlatest
    simp only [Option.map_some, (hlegible r hr).parse?_format]

end

end Holds

end Table

/-! ## Handles -/

theorem Handle.lookup_remember (runId key : String) (head : RunTip) (handle : Handle) :
    (Handle.remember runId head handle).lookup key =
      if key = runId then some head else handle.lookup key := by
  have hmiss {name : String} (h : ¬ key = name) : (key == name) = false := by simp [h]
  induction handle with
  | nil =>
    by_cases h : key = runId
    · simp [remember, h]
    · simp [remember, List.lookup_cons, h, hmiss h]
  | cons first rest ih =>
    obtain ⟨name, old⟩ := first
    by_cases hname : runId = name
    · subst hname
      by_cases h : key = runId
      · simp [remember, h]
      · simp [remember, List.lookup_cons, h, hmiss h]
    · by_cases hkey : key = name
      · have h : ¬ key = runId := fun h => hname (h.symm.trans hkey)
        subst hkey
        simp [remember, hname, h]
      · simp [remember, List.lookup_cons, hname, hmiss hkey, ih]

namespace DurableStore

variable {store next : DurableStore} {log : List Record} {event : Event} {r : Record}

/-- The store holds exactly the records of a log, recorded in its order, and remembers of its runs
what the table says of them. -/
structure Holds (store : DurableStore) (log : List Record) : Prop where
  table : store.table.Holds log
  normal : ∀ r ∈ log, r.event.normalized = r.event
  heads : (∀ r ∈ log, r.Legible) → ∀ runId head, store.handle.lookup runId = some head →
    head = RunTip.ofRecords (recordsOfRun log runId)

theorem holds_empty : (ofTable .empty).Holds [] where
  table := Table.holds_empty
  normal := by simp
  heads _ _ _ h := by cases h

theorem head_of_learnHead {runId : String} {head : RunTip}
    (h : store.learnHead runId = (.ok head, next)) :
    store.handle.head store.table runId = .ok head := by
  unfold learnHead at h
  split at h
  · cases (Prod.mk.inj h).1
  · rename_i head' hhead
    rw [hhead, ← (Prod.mk.inj h).1]

/-- What it takes for an event to be recorded, and what becomes of the store. -/
theorem append_eq_ok (happend : store.append event = (.ok r, next)) :
    ∃ head place, store.handle.head store.table event.normalized.runId = .ok head ∧
      store.table.nextPlace? = some place ∧
      store.table.holds event.normalized.runId event.normalized.id = false ∧
      r = head.recordNext place.toNat event.normalized ∧
      next = ⟨⟨store.table.rows ++ [Row.ofRecord r], place⟩,
        store.handle.remember event.normalized.runId (head.after r)⟩ := by
  unfold append at happend
  dsimp only at happend
  split at happend
  · cases (Prod.mk.inj happend).1
  · rename_i head known hlearn
    split at happend
    · cases (Prod.mk.inj happend).1
    · rename_i place hplace
      split at happend
      · cases (Prod.mk.inj happend).1
      · rename_i hnew
        obtain ⟨hr, hnext⟩ := Prod.mk.inj happend
        obtain rfl := Except.ok.inj hr
        exact ⟨head, place, head_of_learnHead hlearn, hplace, by simpa using hnew, rfl, hnext.symm⟩

/-- A refused event leaves the store as it was, or as it is when the head of the run is known. -/
theorem append_eq_error {error : StoreError} (happend : store.append event = (.error error, next)) :
    ∃ answer, store.learnHead event.normalized.runId = (answer, next) := by
  unfold append at happend
  dsimp only at happend
  split at happend
  · rename_i fault known hlearn
    obtain ⟨-, rfl⟩ := Prod.mk.inj happend
    exact ⟨_, hlearn⟩
  · rename_i head known hlearn
    split at happend
    · obtain ⟨-, rfl⟩ := Prod.mk.inj happend
      exact ⟨_, hlearn⟩
    · split at happend
      · obtain ⟨-, rfl⟩ := Prod.mk.inj happend
        exact ⟨_, hlearn⟩
      · cases (Prod.mk.inj happend).1

namespace Holds

/-- A handle that remembers nothing remembers nothing wrong. -/
theorem reopen (h : store.Holds log) : store.reopen.Holds log where
  table := h.table
  normal := h.normal
  heads _ _ _ h := by cases h

/-- What is known of a run is what its records make of an empty head. -/
theorem head_eq (h : store.Holds log) (hlegible : ∀ r ∈ log, r.Legible) (runId : String) :
    store.handle.head store.table runId = .ok (RunTip.ofRecords (recordsOfRun log runId)) := by
  unfold Handle.head
  cases hknown : store.handle.lookup runId with
  | none =>
    exact h.table.head_eq fun r hr => hlegible r (List.mem_of_mem_filter hr)
  | some head => rw [h.heads hlegible runId head hknown]

/-- Learning the head of a run changes nothing that is held. -/
theorem learnHead (h : store.Holds log) {runId : String} {answer : Except StoreError RunTip}
    (hlearn : store.learnHead runId = (answer, next)) : next.Holds log := by
  unfold DurableStore.learnHead at hlearn
  split at hlearn
  · obtain ⟨-, rfl⟩ := Prod.mk.inj hlearn
    exact h
  · rename_i head hhead
    obtain ⟨-, rfl⟩ := Prod.mk.inj hlearn
    refine ⟨h.table, h.normal, fun hlegible key found hfound => ?_⟩
    rw [h.head_eq hlegible runId] at hhead
    rw [Handle.lookup_remember] at hfound
    split at hfound
    · rename_i heq
      rw [← Option.some.inj hfound, ← Except.ok.inj hhead, heq]
    · exact h.heads hlegible key found hfound

/-- A record that is added is put behind the log. -/
theorem append (h : store.Holds log) (happend : store.append event = (.ok r, next)) :
    next.Holds (log ++ [r]) := by
  obtain ⟨head, place, hhead, hplace, -, hr, rfl⟩ := append_eq_ok happend
  have hevent : r.event = event.normalized := by rw [hr]; rfl
  obtain rfl : place = (log.length : Int) + 1 := by
    rw [h.table.nextPlace?_eq] at hplace
    split at hplace
    · cases hplace
    · exact (Option.some.inj hplace).symm
  have hsequence : r.sequence = log.length + 1 := by rw [hr]; rfl
  refine ⟨h.table.put hsequence, ?_, ?_⟩
  · intro x hx
    rcases List.mem_append.mp hx with hx | hx
    · exact h.normal x hx
    · rw [List.mem_singleton.mp hx, hevent, Event.normalized_normalized]
  · intro hlegible key found hfound
    have hbefore : ∀ x ∈ log, x.Legible := fun x hx => hlegible x (List.mem_append_left _ hx)
    have hrun : r.runId = event.normalized.runId := congrArg Event.runId hevent
    rw [h.head_eq hbefore] at hhead
    rw [Handle.lookup_remember] at hfound
    rw [recordsOfRun_concat, hrun]
    split at hfound
    · rename_i hkey
      rw [if_pos hkey.symm, RunTip.ofRecords_concat, ← Option.some.inj hfound,
        ← Except.ok.inj hhead, hkey]
    · rename_i hkey
      rw [if_neg (Ne.symm hkey), List.append_nil]
      exact h.heads hbefore key found hfound

/-- A refused event leaves the rows alone. -/
theorem append_error (h : store.Holds log) {error : StoreError}
    (happend : store.append event = (.error error, next)) : next.Holds log := by
  obtain ⟨answer, hlearn⟩ := append_eq_error happend
  exact h.learnHead hlearn

/-- While all records are legible and there is room, the answer to an event depends on the log
only. -/
theorem append_fst (h : store.Holds log) (hlegible : ∀ x ∈ log, x.Legible)
    (hroom : (log.length : Int) < lastPlace) (event : Event) :
    (store.append event).1 =
      if store.table.holds event.normalized.runId event.normalized.id then
        .error (.duplicateEvent event.normalized.id event.normalized.runId)
      else .ok ((RunTip.ofRecords (recordsOfRun log event.normalized.runId)).recordNext
        (log.length + 1) event.normalized) := by
  have hhead := h.head_eq hlegible event.normalized.runId
  have hplace : store.table.nextPlace? = some ((log.length : Int) + 1) := by
    rw [h.table.nextPlace?_eq, if_neg (Int.not_le.mpr hroom)]
  simp only [DurableStore.append, DurableStore.learnHead, hhead, hplace]
  split
  · rfl
  · rfl

/-- The handle knows the head of the run then, be the event refused or not. -/
theorem isSome_lookup_append (h : store.Holds log) (hlegible : ∀ x ∈ log, x.Legible) (event : Event) :
    ((store.append event).2.handle.lookup event.normalized.runId).isSome = true := by
  have hhead := h.head_eq hlegible event.normalized.runId
  simp only [DurableStore.append, DurableStore.learnHead, hhead]
  split
  · simp [Handle.lookup_remember]
  · split <;> simp [Handle.lookup_remember]

end Holds

end DurableStore

end RunLedger
