/-
  Proofs/Record/Tampering.lean --- what a check finds in a chain that was altered.

  WHAT THIS FILE IS FOR.  Records can be taken out of a chain, exchanged, repeated
  or edited.  Up to the first place that was touched the chain is as it was, so the
  check gets there, and what it finds is told by the record that stands there now:
  a record from further behind is linked to another one than it follows, a record
  from before is out of order, and an edited one either has not the digest it
  carries or is not what the next one is linked to.

  WHAT IS MISSED.  The check follows the records that there are, and the last one is
  not what any of them is linked to.  So it passes a chain from which the last record
  is gone, although a removal should break a chain like any other change.
-/
import Mathlib.Data.List.Pairwise
import RunLedger.Proofs.Record.Chain

set_option autoImplicit false

namespace RunLedger

open RunLedger.Digest (sha256 sha256Text)
open Record (firstBreak? breakAfter? lastOf lastOf_cons firstBreak?_of_append
  firstBreak?_concat_eq_none_iff breakAfter?_eq_none_iff expectedHash_prevHash)

/-- The check of the records stops at a record, for this reason. -/
def BreaksAt (records : List Record) (r : Record) (found : ChainBreak) : Prop :=
  checkChain records = .error (.chainBroken r.runId r.eventId r.sequence found)

namespace Record

/-! ## One record -/

theorem breakAfter?_eq_outOfOrder {last : Nat × String} {r : Record} (h : r.sequence ≤ last.1) :
    breakAfter? (some last) r = some .outOfOrder := by
  simp [breakAfter?, h]

/-- A record that comes after the one before it and is not linked to it. -/
theorem breakAfter?_eq_wrongLink {previous : Option (Nat × String)} {r : Record}
    (hplace : ∀ last ∈ previous, last.1 < r.sequence)
    (hlink : r.prevHash ≠ previous.map Prod.snd) :
    breakAfter? previous r = some (.wrongLink r.prevHash (previous.map Prod.snd)) := by
  cases previous with
  | none => simp_all [breakAfter?]
  | some last =>
    have hafter : ¬ r.sequence ≤ last.1 := Nat.not_le.mpr (hplace last rfl)
    simp_all [breakAfter?]

/-- A record that fits behind the one before it and has not the digest it carries. -/
theorem breakAfter?_eq_wrongHash {previous : Option (Nat × String)} {r : Record}
    (hplace : ∀ last ∈ previous, last.1 < r.sequence) (hlink : r.prevHash = previous.map Prod.snd)
    (hhash : r.hash ≠ r.expectedHash r.prevHash) :
    breakAfter? previous r = some (.wrongHash r.hash (r.expectedHash r.prevHash)) := by
  cases previous with
  | none => simp_all [breakAfter?]
  | some last =>
    have hafter : ¬ r.sequence ≤ last.1 := Nat.not_le.mpr (hplace last rfl)
    simp_all [breakAfter?]

/-! ## The records before it -/

/-- Behind records that pass, the check goes on with the last of them. -/
theorem firstBreak?_append {previous : Option (Nat × String)} {known : List Record}
    (hknown : firstBreak? previous known = none) (rest : List Record) :
    firstBreak? previous (known ++ rest) = firstBreak? (lastOf previous known) rest := by
  induction known generalizing previous with
  | nil => rfl
  | cons first known ih =>
    rw [firstBreak?] at hknown
    rw [List.cons_append, firstBreak?]
    cases hfirst : breakAfter? previous first with
    | some found => simp [hfirst] at hknown
    | none =>
      rw [hfirst] at hknown
      rw [← lastOf_cons]
      exact ih hknown

/-- The places of records that pass rise. -/
theorem pairwise_sequence_of_firstBreak? {previous : Option (Nat × String)} {records : List Record}
    (h : firstBreak? previous records = none) :
    (∀ last ∈ previous, ∀ r ∈ records, last.1 < r.sequence) ∧
      records.Pairwise fun a b => a.sequence < b.sequence := by
  induction records generalizing previous with
  | nil => simp
  | cons first rest ih =>
    rw [firstBreak?] at h
    cases hfirst : breakAfter? previous first with
    | some found => simp [hfirst] at h
    | none =>
      rw [hfirst] at h
      obtain ⟨hafter, hrest⟩ := ih h
      have hbehind : ∀ r ∈ rest, first.sequence < r.sequence := hafter _ rfl
      have hplace := (breakAfter?_eq_none_iff.mp hfirst).1
      refine ⟨fun last hlast r hr => ?_, List.pairwise_cons.mpr ⟨hbehind, hrest⟩⟩
      rcases List.mem_cons.mp hr with rfl | hr
      · exact hplace last hlast
      · exact (hplace last hlast).trans (hbehind r hr)

theorem mem_lastOf_iff {records : List Record} {last : Nat × String} :
    last ∈ lastOf none records ↔ ∃ r ∈ records.getLast?, (r.sequence, r.hash) = last := by
  simp [lastOf]

theorem map_snd_lastOf (records : List Record) :
    (lastOf none records).map Prod.snd = records.getLast?.map Record.hash := by
  rw [lastOf, Option.or_none, Option.map_map]
  rfl

theorem firstBreak?_take {records : List Record} (hchain : firstBreak? none records = none)
    (k : Nat) : firstBreak? none (records.take k) = none := by
  rw [← List.take_append_drop k records] at hchain
  exact firstBreak?_of_append hchain

theorem lastOf_concat (previous : Option (Nat × String)) (known : List Record) (r : Record) :
    lastOf previous (known ++ [r]) = some (r.sequence, r.hash) := by
  simp [lastOf]

/-- Every record of a chain fits behind the ones before it. -/
theorem breakAfter?_getElem {records : List Record} (hchain : firstBreak? none records = none)
    {i : Nat} (hi : i < records.length) :
    breakAfter? (lastOf none (records.take i)) records[i] = none := by
  have hpart := firstBreak?_take hchain (i + 1)
  rw [← List.take_append_getElem hi] at hpart
  exact (firstBreak?_concat_eq_none_iff.mp hpart).2

/-- A record that the check has passed is out of order when it comes again. -/
theorem breakAfter?_of_mem {known : List Record} {r : Record}
    (hknown : firstBreak? none known = none) (hr : r ∈ known) :
    breakAfter? (lastOf none known) r = some .outOfOrder := by
  have hne : known ≠ [] := List.ne_nil_of_mem hr
  have hlast : lastOf none known =
      some ((known.getLast hne).sequence, (known.getLast hne).hash) := by
    rw [lastOf, List.getLast?_eq_getLast_of_ne_nil hne]
    rfl
  have hrising : known.Pairwise fun a b => a.sequence ≤ b.sequence :=
    (pairwise_sequence_of_firstBreak? hknown).2.imp le_of_lt
  rw [hlast]
  exact breakAfter?_eq_outOfOrder (hrising.rel_getLast_of_rel_getLast_getLast hr le_rfl)

/-- A record that does not follow the ones before it directly is not linked to the last of them,
unless two texts have one digest. -/
theorem breakAfter?_of_skipped {known skipped rest : List Record} {r : Record}
    (hchain : firstBreak? none (known ++ skipped ++ r :: rest) = none) (hskipped : skipped ≠ [])
    (hfree : CollisionFree (known ++ skipped)) :
    breakAfter? (lastOf none known) r =
      some (.wrongLink r.prevHash (known.getLast?.map Record.hash)) := by
  have hpart : firstBreak? none (known ++ skipped ++ [r]) = none := by
    rw [List.append_cons] at hchain
    exact firstBreak?_of_append hchain
  rw [← map_snd_lastOf]
  refine breakAfter?_eq_wrongLink (fun last hlast => ?_) fun hlink => ?_
  · obtain ⟨a, ha, rfl⟩ := mem_lastOf_iff.mp hlast
    have hrising := (pairwise_sequence_of_firstBreak? hpart).2
    refine (List.pairwise_append.mp hrising).2.2 a ?_ r (List.mem_singleton_self r)
    exact List.mem_append_left _ (List.mem_of_getLast? ha)
  · rw [map_snd_lastOf] at hlink
    exact hskipped (eq_nil_of_linked hpart hlink hfree)

end Record

/-- The check stops at the record that does not fit behind records that pass. -/
theorem breaksAt_of_take {records known : List Record} {p : Nat} {r : Record} {found : ChainBreak}
    (hp : p < records.length) (htake : records.take p = known) (hget : records[p] = r)
    (hknown : firstBreak? none known = none)
    (hfound : breakAfter? (lastOf none known) r = some found) : BreaksAt records r found := by
  have hsplit : records = known ++ r :: records.drop (p + 1) := by
    rw [← htake, ← hget, ← List.drop_eq_getElem_cons hp, List.take_append_drop]
  have hbreak : firstBreak? none records = some (r, found) := by
    rw [hsplit, Record.firstBreak?_append hknown, firstBreak?, hfound]
  rw [BreaksAt, checkChain, hbreak]

/-! ## A reworded record -/

/-- The first record with other details, and with this digest. -/
def rewordedRecord (hash : String) : Record :=
  { firstRecord 1 with
    event := { (firstRecord 1).event with details := "Not yet." }
    hash := hash }

/-- The digest that the reworded record should have. -/
def rewordedHash : String := "db7f700035f6f05bdc2a1b3b3d1d71156a9e1b70bd09b2bd5df719d21e4b8f0a"

theorem expectedHash_rewordedRecord (hash : String) :
    (rewordedRecord hash).expectedHash (rewordedRecord hash).prevHash = rewordedHash := by
  refine (sha256Text_digested (rewordedRecord "")).trans ?_
  decide +kernel

theorem collisionFree_reworded (hash : String) :
    CollisionFree [rewordedRecord hash, firstRecord 1, secondRecord] := by
  have hreworded : sha256Text (rewordedRecord hash).digested = _ := expectedHash_rewordedRecord hash
  have hfirst : sha256Text (firstRecord 1).digested = _ := hash_firstRecord
  have hsecond : sha256Text secondRecord.digested = _ := hash_secondRecord
  refine collisionFree_of_nodup ?_
  rw [List.map_cons, List.map_cons, List.map_singleton, hreworded, hfirst, hsecond]
  decide

/-! ## Altered chains -/

section Altered

variable {records : List Record}

/-- Where a record of a chain stands behind the records from which it is cut off, the check finds
that it is linked to another one. -/
theorem breaksAt_of_skipped {altered : List Record} {p i : Nat}
    (hchain : checkChain records = .ok ()) (hfree : CollisionFree records) (hpi : p < i)
    (hi : i < records.length) (hp : p < altered.length) (htake : altered.take p = records.take p)
    (hget : altered[p] = records[i]) :
    BreaksAt altered records[i]
      (.wrongLink records[i].prevHash ((records.take p).getLast?.map Record.hash)) := by
  have hsplit : records.take p ++ (records.take i).drop p ++ records[i] :: records.drop (i + 1) =
      records := by
    have hbefore : records.take p ++ (records.take i).drop p = records.take i := by
      have hcut := List.take_append_drop p (records.take i)
      rwa [List.take_take, min_eq_left hpi.le] at hcut
    rw [hbefore, ← List.drop_eq_getElem_cons hi, List.take_append_drop]
  have hwhole := checkChain_eq_ok_iff.mp hchain
  refine breaksAt_of_take hp htake hget (Record.firstBreak?_take hwhole p) ?_
  have hfree' : CollisionFree (records.take p ++ (records.take i).drop p) := by
    refine hfree.mono fun r hr => ?_
    rw [← hsplit]
    exact List.mem_append_left _ hr
  refine Record.breakAfter?_of_skipped (hsplit.symm ▸ hwhole) ?_ hfree'
  exact List.ne_nil_of_length_pos (by simp; omega)

/-- Where a record of a chain comes again, the check finds that it is out of order. -/
theorem breaksAt_of_repeated {altered : List Record} {p i : Nat}
    (hchain : checkChain records = .ok ()) (hip : i < p) (hi : i < records.length)
    (hp : p < altered.length) (htake : altered.take p = records.take p)
    (hget : altered[p] = records[i]) : BreaksAt altered records[i] .outOfOrder := by
  have hbefore := Record.firstBreak?_take (checkChain_eq_ok_iff.mp hchain) p
  refine breaksAt_of_take hp htake hget hbefore (Record.breakAfter?_of_mem hbefore ?_)
  exact List.mem_take_iff_getElem.mpr ⟨i, by omega, rfl⟩

/-- A chain without its last record is a chain. -/
theorem checkChain_eraseIdx_last {i : Nat} (hchain : checkChain records = .ok ())
    (hlast : i + 1 = records.length) : checkChain (records.eraseIdx i) = .ok () := by
  rw [List.eraseIdx_eq_take_drop_succ, List.drop_eq_nil_of_le hlast.ge, List.append_nil]
  exact checkChain_eq_ok_iff.mpr (Record.firstBreak?_take (checkChain_eq_ok_iff.mp hchain) i)

/-- Whether a copy is put before or behind an item, the list is the same. -/
theorem insertIdx_getElem {α : Type} (l : List α) {i : Nat} (hi : i < l.length) :
    l.insertIdx i l[i] = l.insertIdx (i + 1) l[i] := by
  induction l generalizing i with
  | nil => exact absurd hi i.not_lt_zero
  | cons a l ih =>
    cases i with
    | zero => rfl
    | succ i =>
      rw [List.getElem_cons_succ, List.insertIdx_succ_cons, List.insertIdx_succ_cons, ih]

/-- What becomes of a chain when one record is taken out, two are exchanged, or one is repeated:
the check passes if the last record was taken out, and else stops at the record that stands first
where another one stood, unless two texts have one digest. -/
theorem altered_chain_breaks (hchain : checkChain records = .ok ())
    (hfree : CollisionFree records) :
    (∀ i, i + 1 = records.length → checkChain (records.eraseIdx i) = .ok ()) ∧
    (∀ i (h : i + 1 < records.length), BreaksAt (records.eraseIdx i) records[i + 1]
      (.wrongLink records[i + 1].prevHash ((records.take i).getLast?.map Record.hash))) ∧
    (∀ i j (_ : i < j) (hj : j < records.length),
      BreaksAt ((records.set i records[j]).set j records[i]) records[j]
        (.wrongLink records[j].prevHash ((records.take i).getLast?.map Record.hash))) ∧
    (∀ i p (hi : i < records.length), p ≤ records.length →
      BreaksAt (records.insertIdx p records[i]) records[i]
        (if p < i then .wrongLink records[i].prevHash ((records.take p).getLast?.map Record.hash)
          else .outOfOrder)) := by
  refine ⟨fun i hlast => ?_, fun i hnext => ?_, fun i j hij hj => ?_, fun i p hi hp => ?_⟩
  · exact checkChain_eraseIdx_last hchain hlast
  · refine breaksAt_of_skipped hchain hfree i.lt_succ_self hnext ?_ ?_ ?_
    · rw [List.length_eraseIdx]
      split <;> omega
    · exact List.take_eraseIdx_eq_take_of_le _ _ _ le_rfl
    · exact List.getElem_eraseIdx_of_ge _ le_rfl
  · refine breaksAt_of_skipped hchain hfree hij hj ?_ ?_ ?_
    · simp; omega
    · rw [List.take_set_of_le hij.le, List.take_set_of_le le_rfl]
    · rw [List.getElem_set_ne hij.ne', List.getElem_set_self]
  · have hcopy : (records.insertIdx p records[i]).length = records.length + 1 :=
      List.length_insertIdx_of_le_length hp _
    have htake : (records.insertIdx p records[i]).take p = records.take p :=
      List.take_insertIdx_eq_take_of_le _ _ _ _ le_rfl
    rcases lt_trichotomy p i with hpi | rfl | hip
    · rw [if_pos hpi]
      exact breaksAt_of_skipped hchain hfree hpi hi (by omega) htake
        (List.getElem_insertIdx_self _)
    · -- A copy in the place of its record stands right behind it.
      rw [if_neg (lt_irrefl p), insertIdx_getElem records hi]
      refine breaksAt_of_repeated hchain p.lt_succ_self hi ?_ ?_ ?_
      · rw [List.length_insertIdx_of_le_length hi]
        omega
      · exact List.take_insertIdx_eq_take_of_le _ _ _ _ le_rfl
      · exact List.getElem_insertIdx_self _
    · rw [if_neg hip.not_gt]
      exact breaksAt_of_repeated hchain hip hi (by omega) htake (List.getElem_insertIdx_self _)

/-- The check finds that the first of two records is missing, that the two are exchanged, and that
the first one comes again. -/
theorem altered_pair_breaks :
    checkChain [firstRecord 1, secondRecord] = .ok () ∧
    BreaksAt [secondRecord] secondRecord (.wrongLink (some (firstRecord 1).hash) none) ∧
    BreaksAt [secondRecord, firstRecord 1] secondRecord
      (.wrongLink (some (firstRecord 1).hash) none) ∧
    BreaksAt [firstRecord 1, secondRecord, firstRecord 1] (firstRecord 1) .outOfOrder := by
  obtain ⟨-, hremoved, hswapped, hcopied⟩ :=
    altered_chain_breaks checkChain_twoRecords collisionFree_twoRecords
  exact ⟨checkChain_twoRecords, hremoved 0 (by decide), hswapped 0 1 (by decide) (by decide),
    hcopied 0 2 (by decide) (by decide)⟩

/-- So not every removal is found: the chain of two records passes without the second one. -/
theorem removed_last_passes :
    ¬ ∀ records : List Record, records ≠ [] → checkChain records = .ok () →
      CollisionFree records → ∀ i < records.length,
        ∃ r found, BreaksAt (records.eraseIdx i) r found := by
  intro hfound
  obtain ⟨r, found, hbreak⟩ := hfound [firstRecord 1, secondRecord] (by simp)
    checkChain_twoRecords collisionFree_twoRecords 1 (by decide)
  have hpasses := checkChain_eraseIdx_last checkChain_twoRecords (i := 1) rfl
  rw [BreaksAt, hpasses] at hbreak
  cases hbreak

end Altered

/-! ## Edited chains -/

/-- Records that differ in what is digested have different digests, unless two texts have one. -/
theorem sha256Text_ne_of_edited {records : List Record} {r edited : Record}
    (hfree : CollisionFree (edited :: records)) (hr : r ∈ records)
    (hedit : edited.event.payload ≠ r.event.payload ∨
      edited.integrityWarning ≠ r.integrityWarning) :
    sha256Text edited.digested ≠ sha256Text r.digested := by
  intro hdigest
  have htext := hfree edited List.mem_cons_self r (List.mem_cons_of_mem _ hr) hdigest
  obtain ⟨hpayload, hwarning, -⟩ := Event.envelope_canonical_inj htext
  exact hedit.elim (· hpayload) (· hwarning)

/-- A record of a chain whose payload or mark was edited in its place is found itself if it carries
the digest it had, and by the next record if it has got a new one, unless two texts have one
digest. -/
theorem edited_record_is_found {records : List Record} {i : Nat} {edited : Record}
    (hi : i < records.length) (hchain : checkChain records = .ok ())
    (hfree : CollisionFree (edited :: records))
    (hplace : edited.sequence = records[i].sequence) (hlink : edited.prevHash = records[i].prevHash)
    (hedit : edited.event.payload ≠ records[i].event.payload ∨
      edited.integrityWarning ≠ records[i].integrityWarning) :
    (edited.hash = records[i].hash →
      BreaksAt (records.set i edited) edited
        (.wrongHash edited.hash (edited.expectedHash edited.prevHash))) ∧
    (edited.hash = edited.expectedHash edited.prevHash → ∀ hnext : i + 1 < records.length,
      BreaksAt (records.set i edited) records[i + 1]
        (.wrongLink records[i + 1].prevHash (some edited.hash))) := by
  have hwhole := checkChain_eq_ok_iff.mp hchain
  obtain ⟨hafter, hprev, hhash⟩ := breakAfter?_eq_none_iff.mp (Record.breakAfter?_getElem hwhole hi)
  have hdigest := sha256Text_ne_of_edited hfree (List.getElem_mem hi) hedit
  have hbefore := Record.firstBreak?_take hwhole i
  have htake : (records.set i edited).take i = records.take i := List.take_set_of_le le_rfl
  have hset : i < (records.set i edited).length := by simpa using hi
  have hget : (records.set i edited)[i] = edited := List.getElem_set_self _
  rw [← hplace] at hafter
  rw [← hlink] at hprev
  refine ⟨fun hkept => ?_, fun hsealed hnext => ?_⟩
  · refine breaksAt_of_take hset htake hget hbefore
      (Record.breakAfter?_eq_wrongHash hafter hprev ?_)
    rw [hkept, hhash, expectedHash_prevHash]
    exact hdigest.symm
  · -- The edited record passes, and the next one is still linked to the old digest.
    have hpasses : firstBreak? none (records.take i ++ [edited]) = none :=
      firstBreak?_concat_eq_none_iff.mpr
        ⟨hbefore, breakAfter?_eq_none_iff.mpr ⟨hafter, hprev, hsealed⟩⟩
    have htakeNext : (records.set i edited).take (i + 1) = records.take i ++ [edited] := by
      rw [← List.take_append_getElem hset, hget, htake]
    have hfits := Record.breakAfter?_getElem hwhole hnext
    rw [← List.take_append_getElem hi, Record.lastOf_concat, ← hplace] at hfits
    obtain ⟨hafterNext, hprevNext, -⟩ := breakAfter?_eq_none_iff.mp hfits
    refine breaksAt_of_take (by simpa using hnext) htakeNext
      (List.getElem_set_ne (by omega) _) hpasses ?_
    rw [Record.lastOf_concat]
    refine Record.breakAfter?_eq_wrongLink (fun last hlast => ?_) ?_
    · cases hlast
      exact hafterNext (edited.sequence, records[i].hash) rfl
    · rw [hprevNext, hsealed, expectedHash_prevHash, hhash]
      simpa using hdigest.symm

/-- An edit of the first of two records is found at that record, and at the other one if the edited
record has got the digest that it should have. -/
theorem edited_pair_is_found :
    (rewordedRecord (firstRecord 1).hash).event.payload ≠ (firstRecord 1).event.payload ∧
    BreaksAt [rewordedRecord (firstRecord 1).hash, secondRecord]
      (rewordedRecord (firstRecord 1).hash) (.wrongHash (firstRecord 1).hash rewordedHash) ∧
    BreaksAt [rewordedRecord rewordedHash, secondRecord] secondRecord
      (.wrongLink (some (firstRecord 1).hash) (some rewordedHash)) := by
  have hpayload (hash : String) :
      (rewordedRecord hash).event.payload ≠ (firstRecord 1).event.payload := by
    simp [rewordedRecord, firstRecord, RunTip.recordNext, Record.ofEvent, Event.payload,
      Event.plain]
  have hfound (hash : String) := edited_record_is_found (i := 0) (by decide) checkChain_twoRecords
    (collisionFree_reworded hash) rfl rfl (.inl (hpayload hash))
  have hkept := (hfound (firstRecord 1).hash).1 rfl
  rw [expectedHash_rewordedRecord] at hkept
  have hsealed := (expectedHash_rewordedRecord rewordedHash).symm
  exact ⟨hpayload _, hkept, (hfound rewordedHash).2 hsealed (by decide)⟩

end RunLedger
