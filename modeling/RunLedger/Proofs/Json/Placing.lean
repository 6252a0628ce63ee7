/-
  Proofs/Json/Placing.lean --- canonical text, member by member.

  WHAT THIS FILE IS FOR.  Which text a value has can be worked out by hand: the
  members of an object are taken from the last one to the first and each is put
  before the first member whose key is not smaller.  A merge sort gives the same
  order, but how it halves its list is not open to evaluation.
-/
import Mathlib.Data.List.Nodup
import RunLedger.Proofs.Json.Canonical

set_option autoImplicit false

namespace RunLedger.Json

open RunLedger.Text (quote)

/-! ## Members in their places -/

section Members

variable {α : Type}

/-- Puts a member before the first one whose key is not smaller. -/
def place (m : String × α) : List (String × α) → List (String × α)
  | [] => [m]
  | first :: rest => if keyLe m first then m :: first :: rest else first :: place m rest

/-- Members in key order, each put in its place among those after it. -/
def placeAll : List (String × α) → List (String × α)
  | [] => []
  | m :: rest => place m (placeAll rest)

theorem keyLe_trans (a b c : String × α) (hab : keyLe a b = true) (hbc : keyLe b c = true) :
    keyLe a c = true := by
  rw [keyLe, decide_eq_true_eq] at *
  exact String.le_trans hab hbc

theorem keyLe_total (a b : String × α) : (keyLe a b || keyLe b a) = true := by
  simpa [keyLe] using String.le_total a.1 b.1

theorem keyLe_of_key_eq {a b : String × α} (h : a.1 = b.1) : keyLe a b = true := by
  rw [keyLe, decide_eq_true_eq]
  exact h ▸ String.le_refl a.1

theorem key_eq_of_keyLe {a b : String × α} (hab : keyLe a b = true) (hba : keyLe b a = true) :
    a.1 = b.1 := by
  rw [keyLe, decide_eq_true_eq] at hab hba
  exact String.le_antisymm hab hba

/-- A member goes behind those with smaller keys and before the others. -/
theorem place_append {m : String × α} {before behind : List (String × α)}
    (hbefore : ∀ b ∈ before, keyLe m b = false) (hbehind : ∀ b ∈ behind, keyLe m b = true) :
    place m (before ++ behind) = before ++ m :: behind := by
  induction before with
  | nil =>
    cases behind with
    | nil => rfl
    | cons first rest => simp [place, hbehind first]
  | cons first rest ih =>
    have hrest := ih fun b hb => hbefore b (List.mem_cons_of_mem _ hb)
    simp [place, hbefore first, hrest]

/-- Of two members with different keys it does not matter which is placed first. -/
theorem place_comm {m n : String × α} (h : m.1 ≠ n.1) (members : List (String × α)) :
    place m (place n members) = place n (place m members) := by
  wlog hle : keyLe m n = true generalizing m n with hswap
  · have hge : keyLe n m = true := by simpa [hle] using keyLe_total m n
    exact (hswap h.symm hge).symm
  have hge : keyLe n m = false := Bool.eq_false_iff.mpr fun hge => h (key_eq_of_keyLe hle hge)
  induction members with
  | nil => simp [place, hle, hge]
  | cons first rest ih =>
    by_cases hn : keyLe n first = true
    · have hm : keyLe m first = true := keyLe_trans m n first hle hn
      simp [place, hle, hge, hn, hm]
    · by_cases hm : keyLe m first = true
      · simp [place, hge, hn, hm]
      · simp [place, hn, hm, ih]

/-- Placing members one by one puts them in key order. -/
theorem mergeSort_keyLe_eq_placeAll (members : List (String × α)) :
    members.mergeSort keyLe = placeAll members := by
  induction members with
  | nil => simp [placeAll]
  | cons m rest ih =>
    obtain ⟨before, behind, hcons, hrest, hbefore⟩ :=
      List.mergeSort_cons keyLe_trans keyLe_total m rest
    have hsorted := List.pairwise_mergeSort keyLe_trans keyLe_total (m :: rest)
    rw [hcons, List.pairwise_append] at hsorted
    rw [placeAll, ← ih, hrest, hcons, place_append]
    · exact fun b hb => by simpa using hbefore b hb
    · exact fun b hb => List.rel_of_pairwise_cons hsorted.2.1 hb

/-- Neighbours with different keys may change places before members are put in key order. -/
theorem mergeSort_keyLe_swap {m n : String × α} (h : m.1 ≠ n.1)
    (before behind : List (String × α)) :
    (before ++ m :: n :: behind).mergeSort keyLe =
      (before ++ n :: m :: behind).mergeSort keyLe := by
  rw [mergeSort_keyLe_eq_placeAll, mergeSort_keyLe_eq_placeAll]
  induction before with
  | nil => exact place_comm h (placeAll behind)
  | cons first rest ih => exact congrArg (place first) ih

/-- Members with different keys have one key order, however they are listed. -/
theorem mergeSort_keyLe_of_perm {ms ns : List (String × α)} (hperm : ms.Perm ns)
    (hkeys : (ms.map Prod.fst).Nodup) : ms.mergeSort keyLe = ns.mergeSort keyLe := by
  have hsorted : (ms.mergeSort keyLe).Perm (ns.mergeSort keyLe) :=
    ((List.mergeSort_perm ms keyLe).trans hperm).trans (List.mergeSort_perm ns keyLe).symm
  refine hsorted.eq_of_pairwise ?_ (List.pairwise_mergeSort keyLe_trans keyLe_total ms)
    (List.pairwise_mergeSort keyLe_trans keyLe_total ns)
  intro a b ha hb hab hba
  exact List.inj_on_of_nodup_map hkeys (List.mem_mergeSort.mp ha)
    (hperm.mem_iff.mpr (List.mem_mergeSort.mp hb)) (key_eq_of_keyLe hab hba)

end Members

/-! ## Texts with placed members -/

mutual

/-- The text of a value with the members of every object placed one by one. -/
def writtenChars : Json → List Char
  | .null => ['n', 'u', 'l', 'l']
  | .bool true => ['t', 'r', 'u', 'e']
  | .bool false => ['f', 'a', 'l', 's', 'e']
  | .number n => n.chars
  | .text s => quote s
  | .list items => '[' :: commaJoin (writtenItems items) ++ [']']
  | .object members =>
    '\x7b' :: commaJoin ((placeAll (writtenMembers members)).map memberChars) ++ ['\x7d']

/-- The texts of the items of a list. -/
def writtenItems : List Json → List (List Char)
  | [] => []
  | item :: rest => writtenChars item :: writtenItems rest

/-- The members of an object with their values written. -/
def writtenMembers : List (String × Json) → List (String × List Char)
  | [] => []
  | (key, value) :: rest => (key, writtenChars value) :: writtenMembers rest

end

/-- The canonical text of a value is the one with placed members. -/
theorem canonicalChars_eq_writtenChars (v : Json) : canonicalChars v = writtenChars v := by
  induction v using induct with
  | null => rfl
  | bool b => cases b <;> rfl
  | number n => rfl
  | text s => rfl
  | list items ih =>
    have hitems : canonicalItems items = writtenItems items := by
      induction items with
      | nil => rfl
      | cons item rest ihrest =>
        rw [canonicalItems, writtenItems, ih item List.mem_cons_self,
          ihrest fun v hv => ih v (List.mem_cons_of_mem _ hv)]
    rw [canonicalChars, writtenChars, hitems]
  | object members ih =>
    have hmembers : canonicalMembers members = writtenMembers members := by
      induction members with
      | nil => rfl
      | cons m rest ihrest =>
        rw [canonicalMembers, writtenMembers, ih m List.mem_cons_self,
          ihrest fun m hm => ih m (List.mem_cons_of_mem _ hm)]
    rw [canonicalChars, writtenChars, hmembers, mergeSort_keyLe_eq_placeAll]

end RunLedger.Json
