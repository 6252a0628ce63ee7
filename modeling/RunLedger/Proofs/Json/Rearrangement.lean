/-
  Proofs/Json/Rearrangement.lean --- what canonical text leaves open.

  WHAT THIS FILE IS FOR.  Canonical text leaves open in which order the members of
  objects are listed, and nothing else.  Values with one canonical text are
  REARRANGEMENTS of each other: neighbours with different keys change places, in
  any object at any depth.  Members with one key keep their order, so that in an
  object whose keys differ every order can be reached, and where a key is repeated
  it stays settled which member comes first.  The last section says what this comes
  to for each kind of value.

  Where two values list the same fields in the same order nothing is left open:
  then the draft of one tells it apart from the other.
-/
import Mathlib.Data.List.Forall2
import Mathlib.Data.List.Nodup
import Mathlib.Data.List.Perm.Basic
import RunLedger.Proofs.Json.Placing

set_option autoImplicit false

namespace RunLedger

namespace Json

/-- Lists whose images are the same are related item by item, if having one image relates them. -/
theorem forall₂_of_map_eq {α β : Type} {f : α → β} {R : α → α → Prop} {xs ys : List α}
    (h : xs.map f = ys.map f) (hR : ∀ x ∈ xs, ∀ y ∈ ys, f x = f y → R x y) :
    List.Forall₂ R xs ys := by
  induction xs generalizing ys with
  | nil =>
    cases ys with
    | nil => exact .nil
    | cons y ys => cases h
  | cons x xs ih =>
    cases ys with
    | nil => cases h
    | cons y ys =>
      obtain ⟨hfirst, hrest⟩ := List.cons.inj h
      refine .cons (hR x List.mem_cons_self y List.mem_cons_self hfirst) (ih hrest ?_)
      exact fun x' hx y' hy => hR x' (List.mem_cons_of_mem x hx) y' (List.mem_cons_of_mem y hy)

/-! ## Documents with the same fields -/

/-- The draft of the first value tells it apart from the second. -/
def ToldFrom (v w : Json) : Prop := v.toDraft = w.toDraft → v = w

theorem ToldFrom.symm {v w : Json} (h : ToldFrom v w) : ToldFrom w v :=
  fun hdraft => (h hdraft.symm).symm

/-- The value has no parts. -/
def isLeaf : Json → Bool
  | .list _ => false
  | .object _ => false
  | _ => true

theorem toldFrom_of_isLeaf {v w : Json} (h : v.isLeaf = true) : ToldFrom v w := by
  intro hdraft
  cases v <;> cases w <;> simp_all [isLeaf, toDraft]

theorem toldFrom_list {items items' : List Json}
    (h : ∀ v ∈ items, ∀ w ∈ items', ToldFrom v w) : ToldFrom (.list items) (.list items') := by
  intro hdraft
  rw [toDraft_list, toDraft_list, Draft.list.injEq] at hdraft
  have hitems := forall₂_of_map_eq hdraft.1 h
  rw [List.forall₂_eq_eq_eq] at hitems
  exact congrArg Json.list hitems

/-- Lists of members with the same distinct keys in the same order are the same if they have the
same members. -/
theorem eq_of_perm_of_keys {α : Type} {ms ns : List (String × α)} (hperm : ms.Perm ns)
    (hkeys : ms.map Prod.fst = ns.map Prod.fst) (hdistinct : (ms.map Prod.fst).Nodup) :
    ms = ns := by
  refine List.ext_getElem (by simpa using congrArg List.length hkeys) ?_
  intro i hi hi'
  have hkey : ms[i].1 = ns[i].1 := by
    have h := List.getElem_of_eq hkeys (i := i) (by simpa using hi)
    simpa using h
  have hmem : ms[i] ∈ ns := hperm.mem_iff.mp (List.getElem_mem hi)
  exact List.inj_on_of_nodup_map (hkeys ▸ hdistinct) hmem (List.getElem_mem hi') hkey

/-- Objects with the same fields and one draft have one draft in every field. -/
theorem map_toDraft_eq_of_object {ms ns : List (String × Json)}
    (hkeys : ms.map Prod.fst = ns.map Prod.fst) (hdistinct : (ms.map Prod.fst).Nodup)
    (hdraft : toDraft (.object ms) = toDraft (.object ns)) :
    (ms.map fun m => (m.1, toDraft m.2)) = ns.map fun m => (m.1, toDraft m.2) := by
  rw [toDraft_object, toDraft_object, Draft.object.injEq] at hdraft
  have hperm : (ms.map fun m => (m.1, toDraft m.2)).Perm (ns.map fun m => (m.1, toDraft m.2)) := by
    have hsorted := hdraft.1
    have hms := (List.mergeSort_perm ms keyLe).map fun m => (m.1, toDraft m.2)
    have hns := (List.mergeSort_perm ns keyLe).map fun m => (m.1, toDraft m.2)
    exact (hms.symm.trans (hsorted ▸ List.Perm.refl _)).trans hns
  have hfields (members : List (String × Json)) :
      (members.map fun m => (m.1, toDraft m.2)).map Prod.fst = members.map Prod.fst := by
    rw [List.map_map]
    rfl
  exact eq_of_perm_of_keys hperm (by rw [hfields, hfields, hkeys]) (by rwa [hfields])

/-- Objects with the same fields are told apart by their fields. -/
theorem toldFrom_object {ms ns : List (String × Json)}
    (hkeys : ms.map Prod.fst = ns.map Prod.fst) (hdistinct : (ms.map Prod.fst).Nodup)
    (hvalues : List.Forall₂ (fun m n => ToldFrom m.2 n.2) ms ns) :
    ToldFrom (.object ms) (.object ns) := by
  intro hdraft
  have hmembers := map_toDraft_eq_of_object hkeys hdistinct hdraft
  refine congrArg Json.object ?_
  clear hdraft hkeys hdistinct
  induction hvalues with
  | nil => rfl
  | cons htold _ ih =>
    obtain ⟨hfirst, hrest⟩ := List.cons.inj hmembers
    rw [ih hrest, Prod.ext (Prod.mk.inj hfirst).1 (htold (Prod.mk.inj hfirst).2)]

theorem isLeaf_optionalText (s : Option String) : (optionalText s).isLeaf = true := by
  cases s <;> rfl

/-! ## Other orders of members -/

/-- The second value is the first one with the members of objects, at any depth, in another
order: neighbours with different keys have changed places, any number of times.  Everything else
is the same, numbers with their kind and their sign. -/
inductive Rearranges : Json → Json → Prop where
  | refl (v : Json) : Rearranges v v
  | trans {u v w : Json} (first : Rearranges u v) (second : Rearranges v w) : Rearranges u w
  | swap (before behind : List (String × Json)) {m n : String × Json} (h : m.1 ≠ n.1) :
    Rearranges (.object (before ++ m :: n :: behind)) (.object (before ++ n :: m :: behind))
  | item (before behind : List Json) {v w : Json} (h : Rearranges v w) :
    Rearranges (.list (before ++ v :: behind)) (.list (before ++ w :: behind))
  | member (before behind : List (String × Json)) (key : String) {v w : Json}
    (h : Rearranges v w) :
    Rearranges (.object (before ++ (key, v) :: behind)) (.object (before ++ (key, w) :: behind))

/-- The value with one more member in front, if it is an object. -/
def withMember : Json → String × Json → Json
  | .object members, m => .object (m :: members)
  | v, _ => v

/-- The value with one more item in front, if it is a list. -/
def withItem : Json → Json → Json
  | .list items, item => .list (item :: items)
  | v, _ => v

namespace Rearranges

theorem symm {v w : Json} (h : Rearranges v w) : Rearranges w v := by
  induction h with
  | refl v => exact .refl v
  | trans _ _ ihfirst ihsecond => exact ihsecond.trans ihfirst
  | swap before behind h => exact .swap before behind h.symm
  | item before behind _ ih => exact .item before behind ih
  | member before behind key _ ih => exact .member before behind key ih

/-- Rearranging does not change the canonical text. -/
theorem canonicalChars_eq {v w : Json} (h : Rearranges v w) :
    canonicalChars v = canonicalChars w := by
  induction h with
  | refl v => rfl
  | trans _ _ ihfirst ihsecond => exact ihfirst.trans ihsecond
  | swap before behind h =>
    rw [canonicalChars_object, canonicalChars_object, mergeSort_keyLe_swap h]
  | item before behind _ ih =>
    rw [canonicalChars_list, canonicalChars_list, List.map_append, List.map_append, List.map_cons,
      List.map_cons, ih]
  | member before behind key _ ih =>
    rw [canonicalChars, canonicalChars, canonicalMembers_eq_map, canonicalMembers_eq_map,
      List.map_append, List.map_append, List.map_cons, List.map_cons, ih]

/-- What can be done behind a member can be done with the member in front. -/
theorem withMember (m : String × Json) {v w : Json} (h : Rearranges v w) :
    Rearranges (v.withMember m) (w.withMember m) := by
  induction h with
  | refl v => exact .refl _
  | trans _ _ ihfirst ihsecond => exact ihfirst.trans ihsecond
  | swap before behind h => exact .swap (m :: before) behind h
  | item before behind h => exact .item before behind h
  | member before behind key h => exact .member (m :: before) behind key h

/-- What can be done behind an item can be done with the item in front. -/
theorem withItem (u : Json) {v w : Json} (h : Rearranges v w) :
    Rearranges (v.withItem u) (w.withItem u) := by
  induction h with
  | refl v => exact .refl _
  | trans _ _ ihfirst ihsecond => exact ihfirst.trans ihsecond
  | swap before behind h => exact .swap before behind h
  | item before behind h => exact .item (u :: before) behind h
  | member before behind key h => exact .member before behind key h

/-- A member moves to its place, neighbour by neighbour. -/
theorem to_place (m : String × Json) (members : List (String × Json)) :
    Rearranges (.object (m :: members)) (.object (place m members)) := by
  induction members with
  | nil => exact .refl _
  | cons first rest ih =>
    by_cases hle : keyLe m first = true
    · rw [place, if_pos hle]
      exact .refl _
    · have hkeys : m.1 ≠ first.1 := fun heq => hle (keyLe_of_key_eq heq)
      have hswap : Rearranges (.object (m :: first :: rest)) (.object (first :: m :: rest)) :=
        .swap [] rest hkeys
      rw [place, if_neg hle]
      exact hswap.trans (ih.withMember first)

/-- The members of an object can be brought into key order. -/
theorem to_mergeSort (members : List (String × Json)) :
    Rearranges (.object members) (.object (members.mergeSort keyLe)) := by
  rw [mergeSort_keyLe_eq_placeAll]
  induction members with
  | nil => exact .refl _
  | cons m rest ih => exact (ih.withMember m).trans (to_place m (placeAll rest))

/-- Where the keys of an object differ, every order of its members can be reached. -/
theorem of_perm {ms ns : List (String × Json)} (hperm : ms.Perm ns)
    (hkeys : (ms.map Prod.fst).Nodup) : Rearranges (.object ms) (.object ns) := by
  have hms := to_mergeSort ms
  rw [mergeSort_keyLe_of_perm hperm hkeys] at hms
  exact hms.trans (to_mergeSort ns).symm

/-- Lists are rearranged item by item. -/
theorem of_items {items items' : List Json} (h : List.Forall₂ Rearranges items items') :
    Rearranges (.list items) (.list items') := by
  induction h with
  | nil => exact .refl _
  | @cons v w rest rest' hfirst _ ih =>
    have hitem : Rearranges (.list (v :: rest)) (.list (w :: rest)) := .item [] rest hfirst
    exact hitem.trans (ih.withItem w)

/-- Objects with the same keys in the same order are rearranged member by member. -/
theorem of_members {ms ns : List (String × Json)}
    (h : List.Forall₂ (fun m n => m.1 = n.1 ∧ Rearranges m.2 n.2) ms ns) :
    Rearranges (.object ms) (.object ns) := by
  induction h with
  | nil => exact .refl _
  | @cons m n rest rest' hfirst _ ih =>
    obtain ⟨key, v⟩ := m
    obtain ⟨_, w⟩ := n
    obtain ⟨rfl, hvalue⟩ := hfirst
    have hmember : Rearranges (.object ((key, v) :: rest)) (.object ((key, w) :: rest)) :=
      .member [] rest key hvalue
    exact hmember.trans (ih.withMember (key, w))

/-- Values with one draft are rearrangements of each other. -/
theorem of_toDraft_eq {v w : Json} (h : v.toDraft = w.toDraft) : Rearranges v w := by
  have hleaf {v w : Json} (hv : v.isLeaf = true) (h : v.toDraft = w.toDraft) : Rearranges v w :=
    toldFrom_of_isLeaf hv h ▸ .refl v
  induction v using induct generalizing w with
  | null => exact hleaf rfl h
  | bool b => exact hleaf rfl h
  | number n => exact hleaf rfl h
  | text s => exact hleaf rfl h
  | list items ih =>
    cases w with
    | list items' =>
      rw [toDraft_list, toDraft_list, Draft.list.injEq] at h
      exact of_items (forall₂_of_map_eq h.1 fun v hv w _ => ih v hv)
    | _ => simp [toDraft] at h
  | object members ih =>
    cases w with
    | object members' =>
      rw [toDraft_object, toDraft_object, Draft.object.injEq] at h
      have hsorted : Rearranges (.object (members.mergeSort keyLe))
          (.object (members'.mergeSort keyLe)) := by
        refine of_members (forall₂_of_map_eq h.1 ?_)
        intro m hm n _ hmember
        obtain ⟨hkey, hvalue⟩ := Prod.mk.inj hmember
        exact ⟨hkey, ih m (List.mem_mergeSort.mp hm) hvalue⟩
      exact ((to_mergeSort members).trans hsorted).trans (to_mergeSort members').symm
    | _ => simp [toDraft] at h

end Rearranges

/-- Values have one canonical text if and only if they are rearrangements of each other. -/
theorem canonical_eq_iff {v w : Json} : v.canonical = w.canonical ↔ Rearranges v w :=
  ⟨fun h => .of_toDraft_eq (toDraft_eq_of_canonical h),
    fun h => congrArg String.ofList h.canonicalChars_eq⟩

/-- Values have one draft if and only if they are rearrangements of each other. -/
theorem toDraft_eq_iff {v w : Json} : v.toDraft = w.toDraft ↔ Rearranges v w :=
  ⟨.of_toDraft_eq, fun h => toDraft_eq_of_canonical (canonical_eq_iff.mpr h)⟩

/-! ## What a rearrangement is, by the kind of the value -/

/-- A value without parts has no other arrangement. -/
theorem rearranges_leaf_iff {v w : Json} (hv : v.isLeaf = true) : Rearranges v w ↔ v = w :=
  ⟨fun h => toldFrom_of_isLeaf hv (toDraft_eq_iff.mpr h), fun h => h ▸ .refl v⟩

/-- The arrangements of a list are those of its items, which stay where they are. -/
theorem rearranges_list_iff {items items' : List Json} :
    Rearranges (.list items) (.list items') ↔ List.Forall₂ Rearranges items items' := by
  refine ⟨fun h => ?_, .of_items⟩
  have hdraft := toDraft_eq_iff.mpr h
  rw [toDraft_list, toDraft_list, Draft.list.injEq] at hdraft
  exact forall₂_of_map_eq hdraft.1 fun v _ w _ hvalue => toDraft_eq_iff.mp hvalue

/-- The arrangements of an object whose keys differ are those of the values of its members, with
the members in any order. -/
theorem rearranges_object_iff {ms ns : List (String × Json)} (hkeys : (ms.map Prod.fst).Nodup) :
    Rearranges (.object ms) (.object ns) ↔
      ∃ between, ms.Perm between ∧
        List.Forall₂ (fun m n => m.1 = n.1 ∧ Rearranges m.2 n.2) between ns := by
  constructor
  · intro h
    have hdraft := toDraft_eq_iff.mpr h
    rw [toDraft_object, toDraft_object, Draft.object.injEq] at hdraft
    have hsorted : List.Forall₂ (fun m n => m.1 = n.1 ∧ Rearranges m.2 n.2)
        (ms.mergeSort keyLe) (ns.mergeSort keyLe) := by
      refine forall₂_of_map_eq hdraft.1 fun m _ n _ hmember => ?_
      obtain ⟨hkey, hvalue⟩ := Prod.mk.inj hmember
      exact ⟨hkey, toDraft_eq_iff.mp hvalue⟩
    have hns : Relation.Comp (List.Forall₂ fun m n => m.1 = n.1 ∧ Rearranges m.2 n.2) List.Perm
        (ms.mergeSort keyLe) ns := ⟨_, hsorted, List.mergeSort_perm ns keyLe⟩
    rw [List.forall₂_comp_perm_eq_perm_comp_forall₂] at hns
    obtain ⟨between, hperm, hmembers⟩ := hns
    exact ⟨between, (List.mergeSort_perm ms keyLe).symm.trans hperm, hmembers⟩
  · rintro ⟨between, hperm, hmembers⟩
    exact (Rearranges.of_perm hperm hkeys).trans (.of_members hmembers)

end Json

end RunLedger
