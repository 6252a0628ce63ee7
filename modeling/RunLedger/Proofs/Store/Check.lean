/-
  Proofs/Store/Check.lean --- what a check of a store has looked at.

  WHAT THIS FILE IS FOR.  A check of all runs takes the runs from the listing of
  all records, each once and in the order of their identifiers, and then looks at
  the listing of each run in the order of its places.  It succeeds exactly if all
  these listings do and the records of each run form a chain, and its reports are
  computed from those records (`checkAllRuns_eq_ok_iff`).
-/
import Mathlib.Data.String.Basic
import RunLedger.Proofs.Run.Placement
import RunLedger.Proofs.Store.Call

set_option autoImplicit false

namespace RunLedger

/-! ## The runs of some records -/

section

variable {α : Type} [DecidableEq α]

theorem eraseReps_loop (a : α) (xs acc : List α) :
    List.eraseRepsBy.loop (· == ·) a xs acc = acc.reverse ++ (a :: xs).eraseReps := by
  induction xs generalizing a acc with
  | nil => simp [List.eraseReps, List.eraseRepsBy, List.eraseRepsBy.loop]
  | cons b xs ih =>
    have hself := ih b [a]
    rw [List.eraseReps, List.eraseRepsBy, List.eraseRepsBy.loop, List.eraseRepsBy.loop]
    split
    · rw [ih, ih, List.reverse_nil, List.nil_append]
    · rw [ih, hself, List.reverse_cons, List.reverse_singleton, List.append_assoc]

theorem eraseReps_cons_cons (a b : α) (xs : List α) :
    (a :: b :: xs).eraseReps = if a = b then (b :: xs).eraseReps else a :: (b :: xs).eraseReps := by
  rw [List.eraseReps, List.eraseRepsBy, List.eraseRepsBy.loop, eraseReps_loop, eraseReps_loop]
  by_cases h : a = b
  · simp [h]
  · simp [h, beq_eq_false_iff_ne.mpr h]

theorem mem_eraseReps {x : α} {xs : List α} : x ∈ xs.eraseReps ↔ x ∈ xs := by
  induction xs with
  | nil => rfl
  | cons a xs ih =>
    cases xs with
    | nil => rfl
    | cons b xs =>
      rw [eraseReps_cons_cons]
      split
      · rename_i h
        subst h
        rw [ih]
        simp
      · rw [List.mem_cons, List.mem_cons, ih]

end

/-- A list in order without its repetitions is strictly in order. -/
theorem pairwise_eraseReps {α : Type} [LinearOrder α] {xs : List α}
    (h : xs.Pairwise (· ≤ ·)) : xs.eraseReps.Pairwise (· < ·) := by
  induction xs with
  | nil => exact .nil
  | cons a xs ih =>
    obtain ⟨hfirst, hrest⟩ := List.pairwise_cons.mp h
    cases xs with
    | nil => exact List.pairwise_singleton _ _
    | cons b xs =>
      rw [eraseReps_cons_cons]
      split
      · exact ih hrest
      · rename_i hne
        refine List.pairwise_cons.mpr ⟨fun x hx => ?_, ih hrest⟩
        have hlt : a < b := lt_of_le_of_ne (hfirst b List.mem_cons_self) hne
        rcases List.mem_cons.mp (mem_eraseReps.mp hx) with rfl | hx
        · exact hlt
        · exact lt_of_lt_of_le hlt ((List.pairwise_cons.mp hrest).1 x hx)

theorem mem_runIdsOf {records : List Record} {runId : String} :
    runId ∈ runIdsOf records ↔ ∃ r ∈ records, r.runId = runId := by
  rw [runIdsOf, mem_eraseReps, List.mem_mergeSort, List.mem_map]

@[simp] theorem runIdsOf_singleton (r : Record) : runIdsOf [r] = [r.runId] := by
  rw [runIdsOf, List.map_singleton, List.mergeSort_singleton]
  rfl

theorem pairwise_sortedIds (ids : List String) :
    (ids.mergeSort fun a b => decide (a ≤ b)).Pairwise (· ≤ ·) :=
  pairwise_mergeSort_of_key decide_eq_true_iff ids

/-- The runs are listed in the order of their identifiers, each once. -/
theorem runIdsOf_ascending (records : List Record) : (runIdsOf records).Pairwise (· < ·) :=
  pairwise_eraseReps (pairwise_sortedIds _)

/-- The runs of some records do not depend on the order of the records. -/
theorem runIdsOf_congr {xs ys : List Record} (h : xs.Perm ys) : runIdsOf xs = runIdsOf ys := by
  have hsorted (records : List Record) := pairwise_sortedIds (records.map Record.runId)
  have hids := ((List.mergeSort_perm (xs.map Record.runId) fun a b => decide (a ≤ b)).trans
    (h.map Record.runId)).trans (List.mergeSort_perm _ fun a b => decide (a ≤ b)).symm
  rw [runIdsOf, runIdsOf,
    hids.eq_of_pairwise (fun _ _ _ _ => le_antisymm) (hsorted xs) (hsorted ys)]

/-! ## Checking runs -/

/-- The report is on checked records: on those that a listing gives for its run. -/
def ChainReport.Attests (report : ChainReport)
    (chain : String → Except StoreError (List Record)) : Prop :=
  ∃ records, chain report.runId = .ok records ∧ checkChain records = .ok () ∧
    report = .ofRecords report.runId records

section

variable {σ : Type} [EventStore σ] {store next : σ} {reports : List ChainReport}
  {chain : String → Except StoreError (List Record)}
  (hchain : ∀ runId, (EventStore.readChain runId : StoreM σ _) store = (chain runId, store))

include hchain

theorem checkRun_eq_ok_iff {runId : String} {report : ChainReport} :
    (checkRun runId : StoreM σ _) store = (.ok report, next) ↔
      next = store ∧ report.runId = runId ∧ report.Attests chain := by
  rw [checkRun, bind_eq_ok_iff]
  constructor
  · rintro ⟨records, middle, hread, hcheck⟩
    rw [hchain] at hread
    obtain ⟨hrecords, rfl⟩ := Prod.mk.inj hread
    cases hok : checkChain records with
    | error fault =>
      rw [hok] at hcheck
      cases (Prod.mk.inj hcheck).1
    | ok =>
      rw [hok] at hcheck
      obtain ⟨hreport, rfl⟩ := Prod.mk.inj hcheck
      obtain rfl := Except.ok.inj hreport
      exact ⟨rfl, rfl, records, hrecords, hok, rfl⟩
  · rintro ⟨rfl, rfl, records, hrecords, hok, hreport⟩
    refine ⟨records, next, by rw [hchain, hrecords], ?_⟩
    rw [hok, hreport]
    rfl

theorem checkRuns_eq_ok_iff {runIds : List String} :
    (checkRuns runIds : StoreM σ _) store = (.ok reports, next) ↔
      next = store ∧ reports.map ChainReport.runId = runIds ∧
        ∀ report ∈ reports, report.Attests chain := by
  induction runIds generalizing reports next with
  | nil =>
    rw [checkRuns]
    constructor
    · intro h
      obtain ⟨hreports, rfl⟩ := Prod.mk.inj h
      obtain rfl := Except.ok.inj hreports
      exact ⟨rfl, rfl, by simp⟩
    · rintro ⟨rfl, hnone, -⟩
      rw [List.map_eq_nil_iff.mp hnone]
      rfl
  | cons runId runIds ih =>
    rw [checkRuns, bind_eq_ok_iff]
    constructor
    · rintro ⟨report, middle, hfirst, hrest⟩
      obtain ⟨rfl, rfl, hreport⟩ := (checkRun_eq_ok_iff hchain).mp hfirst
      obtain ⟨others, last, hothers, hanswer⟩ := bind_eq_ok_iff.mp hrest
      obtain ⟨rfl, rfl, hattest⟩ := ih.mp hothers
      obtain ⟨hreports, rfl⟩ := Prod.mk.inj hanswer
      obtain rfl := Except.ok.inj hreports
      exact ⟨rfl, rfl, List.forall_mem_cons.mpr ⟨hreport, hattest⟩⟩
    · rintro ⟨rfl, hnames, hattest⟩
      obtain ⟨report, others, rfl, rfl, hothers⟩ := List.map_eq_cons_iff.mp hnames
      obtain ⟨hreport, hrest⟩ := List.forall_mem_cons.mp hattest
      refine ⟨report, next, (checkRun_eq_ok_iff hchain).mpr ⟨rfl, rfl, hreport⟩, ?_⟩
      exact bind_eq_ok_iff.mpr ⟨others, next, ih.mpr ⟨rfl, hothers, hrest⟩, rfl⟩

/-- A check of all runs succeeds exactly if all records can be listed and the records of each of
their runs, as they are listed for the run, form a chain. -/
theorem checkAllRuns_eq_ok_iff {all : Except StoreError (List Record)}
    (hall : (EventStore.readAll : StoreM σ _) store = (all, store)) :
    (checkAllRuns : StoreM σ _) store = (.ok reports, next) ↔
      next = store ∧ ∃ records, all = .ok records ∧
        reports.map ChainReport.runId = runIdsOf records ∧
        ∀ report ∈ reports, report.Attests chain := by
  rw [checkAllRuns, bind_eq_ok_iff, hall]
  constructor
  · rintro ⟨records, middle, hread, hcheck⟩
    obtain ⟨rfl, rfl⟩ := Prod.mk.inj hread
    obtain ⟨rfl, hnames, hattest⟩ := (checkRuns_eq_ok_iff hchain).mp hcheck
    exact ⟨rfl, records, rfl, hnames, hattest⟩
  · rintro ⟨rfl, records, rfl, hnames, hattest⟩
    exact ⟨records, next, rfl, (checkRuns_eq_ok_iff hchain).mpr ⟨rfl, hnames, hattest⟩⟩

end

end RunLedger
