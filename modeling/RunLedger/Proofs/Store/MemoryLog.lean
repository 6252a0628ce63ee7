/-
  Proofs/Store/MemoryLog.lean --- a store in memory as one log.

  WHAT THIS FILE IS FOR.  The store keeps its records run by run and answers
  from what it keeps beside them.  What it holds is simpler: a list of records in
  the order in which they were recorded.  `MemoryStore.Holds` ties the two
  together, and recording an event is putting one record behind that list.
-/
import Mathlib.Data.List.Range
import RunLedger.Proofs.Run.Placement
import RunLedger.Proofs.Text.Trim
import RunLedger.Store.Memory

set_option autoImplicit false

namespace RunLedger

theorem Event.normalized_normalized (event : Event) :
    event.normalized.normalized = event.normalized := by
  have hdate : (event.approval.resolvedAt.map Time.Instant.toMicros).map Time.Instant.toMicros =
      event.approval.resolvedAt.map Time.Instant.toMicros := by
    cases event.approval.resolvedAt with
    | none => rfl
    | some t => exact congrArg some t.toMicros_toMicros
  simp only [Event.normalized, Text.trim_trim, Time.Instant.toMicros_toMicros, hdate]

theorem Event.normalized_runId (event : Event) :
    event.normalized.runId = Text.trim event.runId := rfl

/-! ## Heads -/

/-- The head of a run with these records. -/
def RunTip.ofRecords (rs : List Record) : RunTip := rs.foldl RunTip.after .empty

theorem RunTip.ofRecords_concat (rs : List Record) (r : Record) :
    ofRecords (rs ++ [r]) = (ofRecords rs).after r := by
  rw [ofRecords, List.foldl_append]
  rfl

theorem RunTip.lastHash_ofRecords (rs : List Record) :
    (ofRecords rs).lastHash = rs.getLast?.map Record.hash := by
  induction rs using List.reverseRecOn with
  | nil => rfl
  | append_singleton rs r _ => simp [ofRecords_concat, after]

/-- The time is the latest one of some records; there is none if there are no records. -/
def IsLatest (rs : List Record) : Option Time.Instant → Prop
  | none => rs = []
  | some t => (∃ r ∈ rs, r.timestamp = t) ∧ ∀ r ∈ rs, r.timestamp ≤ t

theorem RunTip.isLatest_ofRecords (rs : List Record) :
    IsLatest rs (ofRecords rs).lastTimestamp := by
  induction rs using List.reverseRecOn with
  | nil => rfl
  | append_singleton rs r ih =>
    rw [ofRecords_concat, after]
    cases hlast : (ofRecords rs).lastTimestamp with
    | none =>
      rw [hlast] at ih
      obtain rfl : rs = [] := ih
      exact ⟨⟨r, by simp, rfl⟩, by simp⟩
    | some last =>
      rw [hlast] at ih
      obtain ⟨⟨r', hr', rfl⟩, hle⟩ := ih
      dsimp only
      rw [Time.Instant.latest_eq_max]
      constructor
      · rcases le_total r'.timestamp r.timestamp with h | h
        · exact ⟨r, by simp, (max_eq_right h).symm⟩
        · exact ⟨r', by simp [hr'], (max_eq_left h).symm⟩
      · intro x hx
        rcases List.mem_append.mp hx with hx | hx
        · exact (hle x hx).trans (le_max_left _ _)
        · rw [List.mem_singleton.mp hx]
          exact le_max_right _ _

/-- A time is earlier than the latest one of a run exactly if some record of the run is later. -/
theorem RunTip.isLaterThan_ofRecords_iff {rs : List Record} {t : Time.Instant} :
    (ofRecords rs).isLaterThan t = true ↔ ∃ r ∈ rs, t < r.timestamp := by
  have hlatest := isLatest_ofRecords rs
  rw [isLaterThan]
  cases hlast : (ofRecords rs).lastTimestamp with
  | none =>
    rw [hlast] at hlatest
    obtain rfl : rs = [] := hlatest
    simp
  | some last =>
    rw [hlast] at hlatest
    obtain ⟨⟨r, hr, rfl⟩, hle⟩ := hlatest
    rw [Option.any_some, decide_eq_true_iff]
    constructor
    · exact fun hlt => ⟨r, hr, hlt⟩
    · rintro ⟨x, hx, hlt⟩
      exact lt_of_lt_of_le hlt (hle x hx)

namespace MemoryStore

/-- The records of a run in read order, as the store lists them. -/
def readOrder (store : MemoryStore) (runId : String) : List Record :=
  Record.sortForReading (store.run runId).records

theorem readOrder_of_ordered {store : MemoryStore} {runId : String}
    (hordered : (store.run runId).records.Pairwise fun a b => a.readsBefore b = true) :
    store.readOrder runId = (store.run runId).records :=
  List.mergeSort_of_pairwise hordered

/-! ## The logs of the runs -/

theorem lookup_putRun (runId key : String) (log : RunJournal)
    (runs : List (String × RunJournal)) :
    (putRun runId log runs).lookup key = if key = runId then some log else runs.lookup key := by
  have hmiss {name : String} (h : ¬ key = name) : (key == name) = false := by simp [h]
  induction runs with
  | nil =>
    by_cases h : key = runId
    · simp [putRun, h]
    · simp [putRun, List.lookup_cons, h, hmiss h]
  | cons first rest ih =>
    obtain ⟨name, old⟩ := first
    by_cases hname : runId = name
    · subst hname
      by_cases h : key = runId
      · simp [putRun, h]
      · simp [putRun, List.lookup_cons, h, hmiss h]
    · by_cases hkey : key = name
      · have h : ¬ key = runId := fun h => hname (h.symm.trans hkey)
        subst hkey
        simp [putRun, hname, h]
      · simp [putRun, List.lookup_cons, hname, hmiss hkey, ih]

/-- Replacing the log of a run by the same log with one more record adds that record. -/
theorem flatMap_putRun_perm (runId : String) (r : Record) (runs : List (String × RunJournal)) :
    ((putRun runId (((runs.lookup runId).getD .empty).push r) runs).flatMap
        fun (_, log) => log.records).Perm
      (r :: runs.flatMap fun (_, log) => log.records) := by
  induction runs with
  | nil => exact List.Perm.refl _
  | cons first rest ih =>
    obtain ⟨name, old⟩ := first
    by_cases hname : runId = name
    · subst hname
      simp only [putRun, if_true, List.lookup_cons, beq_self_eq_true, Option.getD_some,
        List.flatMap_cons, RunJournal.push, List.append_assoc, List.singleton_append]
      exact List.perm_middle
    · have hskip : (runId == name) = false := by simp [hname]
      simp only [putRun, if_neg hname, List.lookup_cons, hskip, List.flatMap_cons]
      exact (List.Perm.append_left old.records ih).trans List.perm_middle

/-! ## Recording -/

/-- The record that an accepted event becomes, and the store that holds it. -/
theorem append_eq_ok_iff {store store' : MemoryStore} {event : Event} {r : Record} :
    store.append event = (.ok r, store') ↔
      event.normalized.id ∉ (store.run event.normalized.runId).ids ∧
      r = (store.run event.normalized.runId).head.recordNext (store.sequence + 1)
        event.normalized ∧
      store' = ⟨store.sequence + 1, putRun event.normalized.runId
        ((store.run event.normalized.runId).push r) store.runs⟩ := by
  unfold append
  simp only [List.contains_eq_mem, decide_eq_true_eq]
  split
  · rename_i hmem
    simp [hmem]
  · rename_i hmem
    simp only [Prod.mk.injEq, Except.ok.injEq, hmem, not_false_eq_true, true_and]
    constructor
    · rintro ⟨rfl, rfl⟩
      exact ⟨rfl, rfl⟩
    · rintro ⟨rfl, rfl⟩
      exact ⟨rfl, rfl⟩

section

variable {store store' : MemoryStore} {event : Event} {r : Record}

theorem append_error {error : StoreError} (h : store.append event = (.error error, store')) :
    store' = store := by
  simp only [append] at h
  split at h
  · exact (Prod.mk.inj h).2.symm
  · cases (Prod.mk.inj h).1

/-- A record keeps the event that was handed in, and gets the next place. -/
theorem recorded (hstore : store.append event = (.ok r, store')) :
    r.event = event.normalized ∧ r.sequence = store.sequence + 1 := by
  obtain ⟨-, rfl, -⟩ := append_eq_ok_iff.mp hstore
  exact ⟨rfl, rfl⟩

theorem run_append (hstore : store.append event = (.ok r, store')) (runId : String) :
    store'.run runId =
      if runId = r.runId then (store.run runId).push r else store.run runId := by
  obtain ⟨-, hr, rfl⟩ := append_eq_ok_iff.mp hstore
  have hrun : event.normalized.runId = r.runId := by rw [hr]; rfl
  simp only [MemoryStore.run, lookup_putRun, hrun]
  split
  · rename_i heq
    subst heq
    rfl
  · rfl

/-- Recording an event leaves the other runs alone. -/
theorem readOrder_other (hstore : store.append event = (.ok r, store')) {runId : String}
    (hrun : runId ≠ r.runId) : store'.readOrder runId = store.readOrder runId := by
  unfold readOrder
  rw [run_append hstore, if_neg hrun]

end

/-! ## The log of a store -/

/-- The store holds exactly the records of a log, recorded in its order. -/
structure Holds (store : MemoryStore) (log : List Record) : Prop where
  /-- the places are given one after the other, from one on -/
  places : log.map Record.sequence = List.range' 1 store.sequence
  /-- a run has its records of the log -/
  run : ∀ runId, (store.run runId).records = log.filter fun r => r.runId == runId
  /-- the identifiers in use in a run are those of its records -/
  ids : ∀ runId id, id ∈ (store.run runId).ids ↔ ∃ r ∈ log, r.runId = runId ∧ r.eventId = id
  /-- the head of a run is what its records, one after the other, make of an empty one -/
  head : ∀ runId, (store.run runId).head =
    (log.filter fun r => r.runId == runId).foldl RunTip.after .empty
  /-- all records are those of the log -/
  all : store.records.Perm log
  /-- no run has an identifier twice -/
  distinct : (log.map fun r => (r.runId, r.eventId)).Nodup
  /-- what is recorded is normalized -/
  normal : ∀ r ∈ log, r.event.normalized = r.event

theorem holds_empty : empty.Holds [] where
  places := rfl
  run _ := rfl
  ids _ _ := by simp [empty, MemoryStore.run, RunJournal.empty]
  head _ := rfl
  all := List.Perm.refl _
  distinct := List.nodup_nil
  normal := by simp

namespace Holds

variable {store store' : MemoryStore} {log : List Record} {event : Event} {r : Record}

theorem mem_readOrder (h : store.Holds log) {runId : String} :
    r ∈ store.readOrder runId ↔ r ∈ log ∧ r.runId = runId := by
  unfold readOrder
  rw [Record.mem_sortForReading, h.run runId, List.mem_filter, beq_iff_eq]

theorem mem_records (h : store.Holds log) : r ∈ store.records ↔ r ∈ log := h.all.mem_iff

theorem places_nodup (h : store.Holds log) : (log.map Record.sequence).Nodup := by
  rw [h.places]
  exact List.nodup_range'

theorem place_le (h : store.Holds log) (hr : r ∈ log) : r.sequence ≤ store.sequence := by
  have hplace : r.sequence ∈ List.range' 1 store.sequence :=
    h.places ▸ List.mem_map_of_mem hr
  have := List.mem_range'_1.mp hplace
  omega

/-- Two records of one run with the same identifier are the same record. -/
theorem eq_of_eventId (h : store.Holds log) {x y : Record} (hx : x ∈ log) (hy : y ∈ log)
    (hrun : x.runId = y.runId) (hid : x.eventId = y.eventId) : x = y :=
  List.inj_on_of_nodup_map h.distinct hx hy (Prod.ext hrun hid)

/-- The identifier of a record that has just been added is new in its run. -/
theorem fresh (h : store.Holds log) (hstore : store.append event = (.ok r, store')) :
    ∀ x ∈ log, x.runId = r.runId → x.eventId ≠ r.eventId := by
  obtain ⟨hid, rfl, -⟩ := append_eq_ok_iff.mp hstore
  intro x hx hrun heq
  exact hid ((h.ids _ _).mpr ⟨x, hx, hrun, heq⟩)

/-- Recording an event puts its record behind the log. -/
theorem append (h : store.Holds log) (hstore : store.append event = (.ok r, store')) :
    store'.Holds (log ++ [r]) := by
  have hevent := recorded hstore
  have hfresh := h.fresh hstore
  have hruns := run_append hstore
  have hsequence : store'.sequence = store.sequence + 1 := by
    obtain ⟨-, -, rfl⟩ := append_eq_ok_iff.mp hstore
    rfl
  refine ⟨?_, ?_, ?_, ?_, ?_, ?_, ?_⟩
  · rw [List.map_append, h.places, hsequence, List.range'_concat, List.map_singleton, hevent.2]
    simp [Nat.add_comm]
  · intro runId
    rw [hruns runId, List.filter_append]
    by_cases hrun : runId = r.runId
    · simp [hrun, RunJournal.push, h.run]
    · simp [hrun, h.run, Ne.symm hrun]
  · intro runId id
    rw [hruns runId]
    by_cases hrun : runId = r.runId
    · subst hrun
      rw [if_pos rfl, RunJournal.push, List.mem_cons, h.ids]
      simp only [List.mem_append, List.mem_singleton]
      constructor
      · rintro (rfl | ⟨x, hx, hx'⟩)
        · exact ⟨r, .inr rfl, rfl, rfl⟩
        · exact ⟨x, .inl hx, hx'⟩
      · rintro ⟨x, hx | rfl, hxrun, hxid⟩
        · exact .inr ⟨x, hx, hxrun, hxid⟩
        · exact .inl hxid.symm
    · simp only [if_neg hrun, h.ids, List.mem_append, List.mem_singleton]
      constructor
      · rintro ⟨x, hx, hx'⟩
        exact ⟨x, .inl hx, hx'⟩
      · rintro ⟨x, hx | rfl, hxrun, hxid⟩
        · exact ⟨x, hx, hxrun, hxid⟩
        · exact absurd hxrun.symm hrun
  · intro runId
    rw [hruns runId, List.filter_append, List.foldl_append]
    by_cases hrun : runId = r.runId
    · simp [hrun, RunJournal.push, h.head]
    · simp [hrun, h.head, Ne.symm hrun]
  · obtain ⟨-, hr, rfl⟩ := append_eq_ok_iff.mp hstore
    have hadded := flatMap_putRun_perm event.normalized.runId r store.runs
    exact (hadded.trans (h.all.cons r)).trans (List.perm_append_singleton r log).symm
  · rw [List.map_append, List.nodup_append]
    refine ⟨h.distinct, by simp, ?_⟩
    intro named hold new hnew
    obtain ⟨x, hx, rfl⟩ := List.mem_map.mp hold
    obtain rfl : new = (r.runId, r.eventId) := by simpa using hnew
    intro heq
    exact hfresh x hx (Prod.mk.inj heq).1 (Prod.mk.inj heq).2
  · intro x hx
    rcases List.mem_append.mp hx with hx | hx
    · exact h.normal x hx
    · obtain rfl := List.mem_singleton.mp hx
      rw [hevent.1, Event.normalized_normalized]

/-- The new record is read where the gate put its event. -/
theorem readOrder_append (h : store.Holds log) (hstore : store.append event = (.ok r, store'))
    {before after : List Record} (hsplit : store.readOrder r.runId = before ++ after)
    (hplace : r.event.ReadsBetween before after) :
    store'.readOrder r.runId = before ++ r :: after := by
  have hrecords : (store'.run r.runId).records = (store.run r.runId).records ++ [r] := by
    rw [run_append hstore, if_pos rfl]
    rfl
  unfold readOrder
  rw [hrecords]
  have hsublist : (store.run r.runId).records.Sublist log := by
    rw [h.run]
    exact List.filter_sublist
  refine hplace.sortForReading_append hsplit ?_ (h.places_nodup.sublist (hsublist.map _))
  intro x hx
  have hle := h.place_le (hsublist.subset hx)
  have hlast := (recorded hstore).2
  omega

end Holds

end MemoryStore

end RunLedger
