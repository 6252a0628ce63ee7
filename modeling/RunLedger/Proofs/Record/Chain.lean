/-
  Proofs/Record/Chain.lean --- the last digest of a chain binds the whole chain.

  WHAT THIS FILE IS FOR.  The digest of a record covers its payload, its mark and
  its link, and the link is the digest of the record before it.  So two checked
  chains that end with the same digest end with the same record, and what comes
  before the two ends with the same digest again: read from their ends the chains
  agree record by record, until both begin.  Only the places may differ, which no
  digest covers.

  WHAT IS ASSUMED.  Different texts may have one digest.  What is said here is said
  of chains among whose envelopes there are no two such texts.
-/
import Mathlib.Data.List.Induction
import RunLedger.Proofs.Event.Payload
import RunLedger.Proofs.Json.Placing
import RunLedger.Record.Chain
import RunLedger.Store.Basic

set_option autoImplicit false

namespace RunLedger

open RunLedger.Digest (sha256 sha256Text)

namespace Record

/-- The text that the digest of a record is taken of. -/
def digested (r : Record) : String := (r.event.envelope r.integrityWarning r.prevHash).canonical

theorem expectedHash_prevHash (r : Record) : r.expectedHash r.prevHash = sha256Text r.digested :=
  rfl

/-! ## What a check finds -/

theorem breakAfter?_eq_none_iff {previous : Option (Nat × String)} {r : Record} :
    breakAfter? previous r = none ↔
      (∀ last ∈ previous, last.1 < r.sequence) ∧ r.prevHash = previous.map Prod.snd ∧
        r.hash = sha256Text r.digested := by
  have hchoice {a b c : Prop} [Decidable a] [Decidable b] [Decidable c] (x y z : ChainBreak) :
      (if a then some x else if b then some y else if c then some z else none) = none ↔
        ¬ a ∧ ¬ b ∧ ¬ c := by
    split_ifs <;> simp [*]
  unfold breakAfter?
  dsimp only
  rw [hchoice, not_not, not_not]
  constructor
  · rintro ⟨hplace, hlink, hhash⟩
    refine ⟨fun last hlast => ?_, hlink, ?_⟩
    · simpa [Option.mem_def.mp hlast] using hplace
    · rw [hhash, ← hlink, expectedHash_prevHash]
  · rintro ⟨hplace, hlink, hhash⟩
    refine ⟨?_, hlink, ?_⟩
    · cases previous with
      | none => simp
      | some last => simpa using hplace last rfl
    · rw [hhash, ← hlink, expectedHash_prevHash]

/-- The place and the digest that the record behind some records is checked against. -/
def lastOf (previous : Option (Nat × String)) (records : List Record) : Option (Nat × String) :=
  (records.getLast?.map fun r => (r.sequence, r.hash)).or previous

theorem lastOf_cons (previous : Option (Nat × String)) (first : Record) (rest : List Record) :
    lastOf (some (first.sequence, first.hash)) rest = lastOf previous (first :: rest) := by
  cases rest with
  | nil => rfl
  | cons second rest =>
    rw [lastOf, lastOf, List.getLast?_cons_cons, List.getLast?_eq_getLast_of_ne_nil (by simp)]
    rfl

theorem firstBreak?_concat_eq_none_iff {previous : Option (Nat × String)} {records : List Record}
    {r : Record} :
    firstBreak? previous (records ++ [r]) = none ↔
      firstBreak? previous records = none ∧ breakAfter? (lastOf previous records) r = none := by
  induction records generalizing previous with
  | nil =>
    simp only [List.nil_append, firstBreak?, lastOf, List.getLast?_nil, Option.map_none,
      Option.none_or, true_and]
    cases breakAfter? previous r <;> simp
  | cons first rest ih =>
    simp only [List.cons_append, firstBreak?]
    cases breakAfter? previous first with
    | some found => simp
    | none => rw [← lastOf_cons]; exact ih

/-- A chain may be cut off behind any record. -/
theorem firstBreak?_of_append {previous : Option (Nat × String)} {xs ys : List Record}
    (h : firstBreak? previous (xs ++ ys) = none) : firstBreak? previous xs = none := by
  induction ys using List.reverseRecOn with
  | nil => rwa [List.append_nil] at h
  | append_singleton ys y ih =>
    rw [← List.append_assoc] at h
    exact ih (firstBreak?_concat_eq_none_iff.mp h).1

/-- Two records agree in all but their places. -/
structure Agrees (a b : Record) : Prop where
  payload : a.event.payload = b.event.payload
  integrityWarning : a.integrityWarning = b.integrityWarning
  prevHash : a.prevHash = b.prevHash
  hash : a.hash = b.hash

end Record

/-- Among the texts that the digests of some records are taken of, no two have one digest. -/
def CollisionFree (records : List Record) : Prop :=
  ∀ a ∈ records, ∀ b ∈ records,
    sha256Text a.digested = sha256Text b.digested → a.digested = b.digested

theorem CollisionFree.mono {xs ys : List Record} (h : CollisionFree ys)
    (hsub : ∀ r ∈ xs, r ∈ ys) : CollisionFree xs :=
  fun a ha b hb => h a (hsub a ha) b (hsub b hb)

/-- Only the texts matter. -/
theorem CollisionFree.of_digested {xs ys : List Record} (h : CollisionFree ys)
    (hsame : ∀ r ∈ xs, ∃ s ∈ ys, s.digested = r.digested) : CollisionFree xs := by
  intro a ha b hb hdigest
  obtain ⟨a', ha', hasame⟩ := hsame a ha
  obtain ⟨b', hb', hbsame⟩ := hsame b hb
  rw [← hasame, ← hbsame] at hdigest ⊢
  exact h a' ha' b' hb' hdigest

theorem collisionFree_of_nodup {records : List Record}
    (h : (records.map fun r => sha256Text r.digested).Nodup) : CollisionFree records :=
  fun _ ha _ hb hdigest => congrArg Record.digested (List.inj_on_of_nodup_map h ha hb hdigest)

open Record (firstBreak? breakAfter? lastOf firstBreak?_concat_eq_none_iff breakAfter?_eq_none_iff)

theorem checkChain_eq_ok_iff {records : List Record} :
    checkChain records = .ok () ↔ firstBreak? none records = none := by
  unfold checkChain
  split
  · rename_i hbreak
    simp [hbreak]
  · rename_i hbreak
    simp [hbreak]

/-- Read from their ends, checked records with one last digest agree one by one. -/
theorem forall₂_agrees_of_firstBreak? {xs ys : List Record} (hxs : firstBreak? none xs = none)
    (hys : firstBreak? none ys = none) (hfree : CollisionFree (xs ++ ys))
    (hlast : xs.getLast?.map Record.hash = ys.getLast?.map Record.hash) :
    List.Forall₂ Record.Agrees xs ys := by
  induction xs using List.reverseRecOn generalizing ys with
  | nil =>
    cases ys using List.reverseRecOn with
    | nil => exact .nil
    | append_singleton ys b => simp at hlast
  | append_singleton xs a ih =>
    cases ys using List.reverseRecOn with
    | nil => simp at hlast
    | append_singleton ys b =>
      obtain ⟨hxs', ha⟩ := firstBreak?_concat_eq_none_iff.mp hxs
      obtain ⟨hys', hb⟩ := firstBreak?_concat_eq_none_iff.mp hys
      obtain ⟨-, halink, hahash⟩ := breakAfter?_eq_none_iff.mp ha
      obtain ⟨-, hblink, hbhash⟩ := breakAfter?_eq_none_iff.mp hb
      have hhash : a.hash = b.hash := by simpa using hlast
      have htext : a.digested = b.digested :=
        hfree a (by simp) b (by simp) (by rw [← hahash, ← hbhash, hhash])
      obtain ⟨hpayload, hwarning, hlink⟩ := Event.envelope_canonical_inj htext
      have hbefore : xs.getLast?.map Record.hash = ys.getLast?.map Record.hash := by
        rw [halink, hblink] at hlink
        simpa [lastOf, Option.map_map, Function.comp_def] using hlink
      have hfree' : CollisionFree (xs ++ ys) := by
        refine hfree.mono fun x hx => ?_
        simp only [List.mem_append] at hx ⊢
        tauto
      exact List.rel_append (ih hxs' hys' hfree' hbefore)
        (.cons ⟨hpayload, hwarning, hlink, hhash⟩ .nil)

/-- If a record that is linked to the end of a part of a chain fits behind the whole chain, the part
is the whole. -/
theorem eq_nil_of_linked {known behind : List Record} {r : Record}
    (hchain : firstBreak? none (known ++ behind ++ [r]) = none)
    (hlink : r.prevHash = known.getLast?.map Record.hash)
    (hfree : CollisionFree (known ++ behind)) : behind = [] := by
  obtain ⟨hwhole, hlast⟩ := firstBreak?_concat_eq_none_iff.mp hchain
  obtain ⟨-, hprev, -⟩ := breakAfter?_eq_none_iff.mp hlast
  have hpart : firstBreak? none known = none := Record.firstBreak?_of_append hwhole
  have hends : known.getLast?.map Record.hash = (known ++ behind).getLast?.map Record.hash := by
    rw [← hlink, hprev, lastOf, Option.or_none, Option.map_map]
    rfl
  have hfree' : CollisionFree (known ++ (known ++ behind)) := by
    refine hfree.mono fun x hx => ?_
    simp only [List.mem_append] at hx ⊢
    tauto
  have hlength := (forall₂_agrees_of_firstBreak? hpart hwhole hfree' hends).length_eq
  rw [List.length_append] at hlength
  exact List.eq_nil_of_length_eq_zero (by omega)

/-- Two checked chains whose last records have one digest have the same length, and agree record by
record in all but their places, unless two of the texts that were digested have one digest. -/
theorem last_hash_binds_chain (xs ys : List Record) (hxs : checkChain xs = .ok ())
    (hys : checkChain ys = .ok ()) (hfree : CollisionFree (xs ++ ys))
    (hne : xs ≠ [] ∧ ys ≠ [])
    (hlast : (xs.getLast hne.1).hash = (ys.getLast hne.2).hash) :
    xs.length = ys.length ∧ List.Forall₂ Record.Agrees xs ys := by
  have hagree : List.Forall₂ Record.Agrees xs ys := by
    refine forall₂_agrees_of_firstBreak? (checkChain_eq_ok_iff.mp hxs)
      (checkChain_eq_ok_iff.mp hys) hfree ?_
    rw [List.getLast?_eq_getLast_of_ne_nil hne.1, List.getLast?_eq_getLast_of_ne_nil hne.2,
      Option.map_some, Option.map_some, hlast]
  exact ⟨hagree.length_eq, hagree⟩

/-! ## A chain of two records -/

/-- The digest of a record, taken of a text whose members are placed one by one. -/
theorem sha256Text_digested (r : Record) :
    sha256Text r.digested = sha256 ((r.event.envelope r.integrityWarning
      r.prevHash).writtenChars.flatMap String.utf8EncodeChar) := by
  rw [← Json.canonicalChars_eq_writtenChars, sha256Text, Record.digested, Json.canonical,
    String.toUTF8]
  simp [List.utf8Encode]

/-- The first record of a run, at some place. -/
def firstRecord (place : Nat) : Record :=
  RunTip.empty.recordNext place (Event.plain "draft" "run" .epoch .action .agent "Draft" "Done.")

theorem hash_firstRecord : (firstRecord 1).hash =
    "fc391a1a066ae6e6a21d19770b714d7555b0363025da3da451d245d54d94b695" := by
  refine (sha256Text_digested (firstRecord 1)).trans ?_
  decide +kernel

/-- The record behind the first one of a run. -/
def secondRecord : Record :=
  .ofEvent 2 (Event.plain "sign" "run" .epoch .action .human "Sign" "Signed.") false
    (some (firstRecord 1).hash)

theorem hash_secondRecord : secondRecord.hash =
    "5a9f5c97bbd81a312894acb964f1a64ce875a1be74cee382f1db40119c10c22d" := by
  refine (sha256Text_digested secondRecord).trans ?_
  rw [secondRecord, hash_firstRecord]
  decide +kernel

/-- The two records are a chain wherever they are, as long as the second one comes later. -/
theorem checkChain_movedRecords {m n : Nat} (h : m < n) :
    checkChain [firstRecord m, { secondRecord with sequence := n }] = .ok () := by
  have hfirst : breakAfter? none (firstRecord m) = none :=
    breakAfter?_eq_none_iff.mpr ⟨by simp, rfl, rfl⟩
  have hsecond : breakAfter? (some (m, (firstRecord m).hash))
      { secondRecord with sequence := n } = none :=
    breakAfter?_eq_none_iff.mpr ⟨by simpa using h, rfl, rfl⟩
  have hplace : (firstRecord m).sequence = m := rfl
  rw [checkChain_eq_ok_iff, firstBreak?, hfirst]
  dsimp only
  rw [hplace, firstBreak?, hsecond]
  rfl

theorem checkChain_twoRecords : checkChain [firstRecord 1, secondRecord] = .ok () :=
  checkChain_movedRecords (n := 2) (by decide)

theorem collisionFree_twoRecords : CollisionFree [firstRecord 1, secondRecord] := by
  have hfirst : sha256Text (firstRecord 1).digested = _ := hash_firstRecord
  have hsecond : sha256Text secondRecord.digested = _ := hash_secondRecord
  refine collisionFree_of_nodup ?_
  rw [List.map_cons, List.map_singleton, hfirst, hsecond]
  decide

/-- Two linked records that are given other places are bound by the same digest. -/
theorem moved_records_are_bound :
    checkChain [firstRecord 1, secondRecord] = .ok () ∧
      checkChain [firstRecord 4, { secondRecord with sequence := 9 }] = .ok () ∧
      List.Forall₂ Record.Agrees [firstRecord 1, secondRecord]
        [firstRecord 4, { secondRecord with sequence := 9 }] := by
  have hmoved := checkChain_movedRecords (m := 4) (n := 9) (by decide)
  have hfree : CollisionFree ([firstRecord 1, secondRecord] ++
      [firstRecord 4, { secondRecord with sequence := 9 }]) := by
    refine collisionFree_twoRecords.of_digested ?_
    simp only [List.cons_append, List.nil_append, List.forall_mem_cons]
    exact ⟨⟨_, List.mem_cons_self, rfl⟩, ⟨_, by simp, rfl⟩, ⟨firstRecord 1, by simp, rfl⟩,
      ⟨secondRecord, by simp, rfl⟩, by simp⟩
  exact ⟨checkChain_twoRecords, hmoved, (last_hash_binds_chain _ _ checkChain_twoRecords hmoved hfree
    ⟨by simp, by simp⟩ rfl).2⟩

end RunLedger
