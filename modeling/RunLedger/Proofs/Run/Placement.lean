/-
  Proofs/Run/Placement.lean --- where an event is read.

  WHAT THIS FILE IS FOR.  The gate puts an event into its history at a place
  found by halving; the store puts it there by sorting all records of the run.
  Both places are the same: behind every record up to the time of the event and
  before every later one.  The gate's place needs a history in order of time,
  the store's one needs that the event is recorded last.
-/
import Mathlib.Data.List.Nodup
import RunLedger.Proofs.Time.Order
import RunLedger.Run.Gate

set_option autoImplicit false

namespace RunLedger

/-! ## Halving -/

/-- If a property of places holds up to `point`, the place found is next to it. -/
theorem bisect_near {holds : Nat → Bool} {point : Nat}
    (hholds : ∀ place, holds place = true ↔ place < point) :
    ∀ (fuel base size : Nat), size ≤ fuel + 1 → base ≤ point → point ≤ base + size →
      bisect holds fuel base size ≤ point ∧ point ≤ bisect holds fuel base size + 1 := by
  intro fuel
  induction fuel with
  | zero =>
    intro base size hsize hbase hpoint
    simp only [bisect]
    omega
  | succ fuel ih =>
    intro base size hsize hbase hpoint
    by_cases hone : size ≤ 1
    · simp only [bisect, if_pos hone]
      omega
    · simp only [bisect, if_neg hone]
      by_cases hmiddle : holds (base + size / 2) = true
      · have hlt : base + size / 2 < point := (hholds _).mp hmiddle
        rw [if_pos hmiddle]
        exact ih _ _ (by omega) (by omega) (by omega)
      · have hge : ¬ base + size / 2 < point := fun h => hmiddle ((hholds _).mpr h)
        rw [if_neg hmiddle]
        exact ih _ _ (by omega) (by omega) (by omega)

theorem splitPoint_append {α : Type} {holds : α → Bool} {first rest : List α}
    (hfirst : ∀ x ∈ first, holds x = true) (hrest : ∀ x ∈ rest, holds x = false) :
    splitPoint holds (first ++ rest) = first.length := by
  have hholds : ∀ place,
      ((first ++ rest)[place]?.any holds) = true ↔ place < first.length := by
    intro place
    by_cases hplace : place < first.length
    · simp [hplace, List.getElem?_append_left hplace, hfirst _ (List.getElem_mem hplace)]
    · rw [List.getElem?_append_right (Nat.le_of_not_lt hplace)]
      cases hfound : rest[place - first.length]? with
      | none => simp [hplace]
      | some x => simp [hplace, hrest x (List.mem_of_getElem? hfound)]
  obtain ⟨hle, hge⟩ := bisect_near hholds (first ++ rest).length 0 (first ++ rest).length
    (Nat.le_succ _) (Nat.zero_le _) (by simp)
  unfold splitPoint
  simp only [hholds]
  split <;> omega

/-! ## Read order -/

/-- A list that is sorted by a key has its keys in order. -/
theorem pairwise_mergeSort_of_key {α β : Type} [LinearOrder β] {before : α → α → Bool}
    {key : α → β} (h : ∀ {a b}, before a b = true ↔ key a ≤ key b) (items : List α) :
    (items.mergeSort before).Pairwise fun a b => key a ≤ key b := by
  refine (List.pairwise_mergeSort ?_ ?_ items).imp h.mp
  · intro a b c hab hbc
    rw [h] at hab hbc ⊢
    exact le_trans hab hbc
  · intro a b
    rw [Bool.or_eq_true, h, h]
    exact le_total (key a) (key b)

namespace Record

theorem readsBefore_iff (a b : Record) :
    a.readsBefore b = true ↔
      a.timestamp < b.timestamp ∨ (a.timestamp = b.timestamp ∧ a.sequence ≤ b.sequence) := by
  simp [readsBefore]

theorem readsBefore_total (a b : Record) : (a.readsBefore b || b.readsBefore a) = true := by
  rw [Bool.or_eq_true, readsBefore_iff, readsBefore_iff]
  rcases lt_trichotomy a.timestamp b.timestamp with h | h | h
  · exact .inl (.inl h)
  · rcases Nat.le_total a.sequence b.sequence with hseq | hseq
    · exact .inl (.inr ⟨h, hseq⟩)
    · exact .inr (.inr ⟨h.symm, hseq⟩)
  · exact .inr (.inl h)

theorem readsBefore_trans (a b c : Record) (hab : a.readsBefore b = true)
    (hbc : b.readsBefore c = true) : a.readsBefore c = true := by
  rw [readsBefore_iff] at hab hbc ⊢
  rcases hab with hab | ⟨hab, hseq⟩
  · rcases hbc with hbc | ⟨hbc, _⟩
    · exact .inl (lt_trans hab hbc)
    · exact .inl (hbc ▸ hab)
  · rcases hbc with hbc | ⟨hbc, hseq'⟩
    · exact .inl (hab ▸ hbc)
    · exact .inr ⟨hab.trans hbc, Nat.le_trans hseq hseq'⟩

theorem sortForReading_perm (records : List Record) : (sortForReading records).Perm records :=
  List.mergeSort_perm _ _

theorem mem_sortForReading {records : List Record} {r : Record} :
    r ∈ sortForReading records ↔ r ∈ records :=
  (sortForReading_perm records).mem_iff

theorem sortForReading_pairwise (records : List Record) :
    (sortForReading records).Pairwise fun a b => a.readsBefore b = true :=
  List.pairwise_mergeSort readsBefore_trans readsBefore_total records

/-- A list of records is in order of time. -/
def InTimeOrder (records : List Record) : Prop :=
  records.Pairwise fun a b => a.timestamp ≤ b.timestamp

theorem inTimeOrder_sortForReading (records : List Record) :
    InTimeOrder (sortForReading records) := by
  refine (sortForReading_pairwise records).imp fun {a b} h => ?_
  rcases (readsBefore_iff a b).mp h with hlt | ⟨heq, -⟩
  · exact le_of_lt hlt
  · exact le_of_eq heq

/-- Two lists of the same records that are both in read order are the same list. -/
theorem eq_of_perm_of_pairwise {xs ys : List Record} (hperm : xs.Perm ys)
    (hplaces : (xs.map sequence).Nodup)
    (hxs : xs.Pairwise fun a b => a.readsBefore b = true)
    (hys : ys.Pairwise fun a b => a.readsBefore b = true) : xs = ys := by
  refine hperm.eq_of_pairwise ?_ hxs hys
  intro a b ha hb hab hba
  have hseq : a.sequence = b.sequence := by
    rw [readsBefore_iff] at hab hba
    rcases hab with hab | ⟨hab, hseq⟩
    · rcases hba with hba | ⟨hba, _⟩
      · exact absurd hab (lt_asymm hba)
      · exact absurd hba.symm (ne_of_lt hab)
    · rcases hba with hba | ⟨_, hseq'⟩
      · exact absurd hab.symm (ne_of_lt hba)
      · exact Nat.le_antisymm hseq hseq'
  exact List.inj_on_of_nodup_map hplaces ha (hperm.mem_iff.mpr hb) hseq

/-- Records with different places have one read order, in whatever order they are given. -/
theorem sortForReading_congr {xs ys : List Record} (hperm : xs.Perm ys)
    (hplaces : (xs.map sequence).Nodup) : sortForReading xs = sortForReading ys := by
  have hsorted := ((sortForReading_perm xs).trans hperm).trans (sortForReading_perm ys).symm
  refine eq_of_perm_of_pairwise hsorted ?_ (sortForReading_pairwise xs) (sortForReading_pairwise ys)
  exact ((sortForReading_perm xs).map sequence).nodup_iff.mpr hplaces

end Record

/-! ## The place of an event in a history -/

open Record (InTimeOrder sortForReading)

/-- An event that is recorded last is read between two parts of a history: the records of the
first part are not later than the event, those of the second one are. -/
structure Event.ReadsBetween (event : Event) (before after : List Record) : Prop where
  earlier : ∀ r ∈ before, r.timestamp ≤ event.timestamp
  later : ∀ r ∈ after, event.timestamp < r.timestamp

/-- A history in order of time has a place for every event. -/
theorem Event.exists_readsBetween (event : Event) {history : List Record}
    (hordered : InTimeOrder history) :
    ∃ before after, history = before ++ after ∧ event.ReadsBetween before after := by
  induction history with
  | nil => exact ⟨[], [], rfl, by simp, by simp⟩
  | cons r rest ih =>
    obtain ⟨hfirst, hrest⟩ := List.pairwise_cons.mp hordered
    by_cases hr : r.timestamp ≤ event.timestamp
    · obtain ⟨before, after, rfl, hplace⟩ := ih hrest
      refine ⟨r :: before, after, rfl, ?_, hplace.later⟩
      intro x hx
      rcases List.mem_cons.mp hx with rfl | hx
      · exact hr
      · exact hplace.earlier x hx
    · refine ⟨[], r :: rest, rfl, by simp, ?_⟩
      intro x hx
      rcases List.mem_cons.mp hx with rfl | hx
      · exact lt_of_not_ge hr
      · exact lt_of_lt_of_le (lt_of_not_ge hr) (hfirst x hx)

namespace Event.ReadsBetween

variable {event : Event} {before after : List Record}

/-- An event that is not earlier than any record of a history is read behind all of them. -/
theorem of_end (hearlier : ∀ r ∈ before, r.timestamp ≤ event.timestamp) :
    event.ReadsBetween before [] :=
  ⟨hearlier, by simp⟩

theorem readPosition_eq (hplace : event.ReadsBetween before after) :
    Gate.readPosition event (before ++ after) = before.length := by
  unfold Gate.readPosition
  refine splitPoint_append ?_ ?_
  · intro r hr
    exact decide_eq_true (hplace.earlier r hr)
  · intro r hr
    exact decide_eq_false (not_le_of_gt (hplace.later r hr))

theorem historyWith_eq (hplace : event.ReadsBetween before after) :
    Gate.historyWith event (before ++ after) =
      before.map Record.event ++ event :: after.map Record.event := by
  unfold Gate.historyWith
  simp only [hplace.readPosition_eq, List.map_append]
  rw [List.take_left' (by simp), List.drop_left' (by simp)]

/-- The history with the record of the event at its place is in order of time again. -/
theorem inTimeOrder_insert {r : Record} (hplace : r.event.ReadsBetween before after)
    (hordered : InTimeOrder (before ++ after)) : InTimeOrder (before ++ r :: after) := by
  obtain ⟨hbefore, hafter, hacross⟩ := List.pairwise_append.mp hordered
  refine List.pairwise_append.mpr ⟨hbefore, List.pairwise_cons.mpr ⟨?_, hafter⟩, ?_⟩
  · exact fun x hx => le_of_lt (hplace.later x hx)
  · intro x hx y hy
    rcases List.mem_cons.mp hy with rfl | hy
    · exact hplace.earlier x hx
    · exact hacross x hx y hy

/-- A record is not read last exactly if there is a later one. -/
theorem getLast?_ne_iff {r : Record} (hplace : r.event.ReadsBetween before after) :
    (before ++ r :: after).getLast? ≠ some r ↔
      ∃ x ∈ before ++ after, r.timestamp < x.timestamp := by
  constructor
  · intro hlast
    cases after with
    | nil => exact absurd (by simp) hlast
    | cons x rest => exact ⟨x, by simp, hplace.later x List.mem_cons_self⟩
  · rintro ⟨x, hx, hlt⟩ hlast
    rcases List.mem_append.mp hx with hx | hx
    · exact absurd hlt (not_lt_of_ge (hplace.earlier x hx))
    · rcases List.eq_nil_or_concat after with rfl | ⟨init, y, rfl⟩
      · cases hx
      · rw [List.concat_eq_append, ← List.cons_append, ← List.append_assoc,
          List.getLast?_concat] at hlast
        have heq : y = r := Option.some.inj hlast
        exact absurd (hplace.later y (by simp)) (heq ▸ lt_irrefl _)

/-- Sorting puts the record with the last place exactly where the gate puts its event. -/
theorem sortForReading_append {records : List Record} {r : Record}
    (hplace : r.event.ReadsBetween before after)
    (hsplit : sortForReading records = before ++ after)
    (hnewest : ∀ x ∈ records, x.sequence < r.sequence)
    (hplaces : (records.map Record.sequence).Nodup) :
    sortForReading (records ++ [r]) = before ++ r :: after := by
  have hperm : (records ++ [r]).Perm (before ++ r :: after) := by
    have hold : records.Perm (before ++ after) := hsplit ▸ (Record.sortForReading_perm _).symm
    have hlast : (records ++ [r]).Perm (r :: records) := List.perm_append_singleton r records
    exact (hlast.trans (hold.cons r)).trans List.perm_middle.symm
  have hnodup : ((sortForReading (records ++ [r])).map Record.sequence).Nodup := by
    refine (((Record.sortForReading_perm _).map Record.sequence).nodup_iff).mpr ?_
    rw [List.map_append, List.nodup_append]
    refine ⟨hplaces, by simp, ?_⟩
    intro place hold new hnew
    obtain ⟨x, hx, rfl⟩ := List.mem_map.mp hold
    obtain rfl : new = r.sequence := by simpa using hnew
    exact Nat.ne_of_lt (hnewest x hx)
  have hsorted := hsplit ▸ Record.sortForReading_pairwise records
  obtain ⟨hbefore, hafter, hacross⟩ := List.pairwise_append.mp hsorted
  have hmem : ∀ x ∈ before, x ∈ records := fun x hx =>
    Record.mem_sortForReading.mp (hsplit ▸ List.mem_append_left after hx)
  refine Record.eq_of_perm_of_pairwise ((Record.sortForReading_perm _).trans hperm) hnodup
    (Record.sortForReading_pairwise _)
    (List.pairwise_append.mpr ⟨hbefore, List.pairwise_cons.mpr ⟨?_, hafter⟩, ?_⟩)
  · exact fun x hx => (Record.readsBefore_iff r x).mpr (.inl (hplace.later x hx))
  · intro x hx y hy
    rcases List.mem_cons.mp hy with rfl | hy
    · refine (Record.readsBefore_iff x y).mpr ?_
      rcases lt_or_eq_of_le (hplace.earlier x hx) with hlt | heq
      · exact .inl hlt
      · exact .inr ⟨heq, Nat.le_of_lt (hnewest x (hmem x hx))⟩
    · exact hacross x hx y hy

end Event.ReadsBetween

end RunLedger
