/-
  Proofs/Text/Trim.lean --- texts without blanks at their ends.

  WHAT THIS FILE IS FOR.  A trimmed text stays as it is when it is trimmed
  again, so an event may be normalized more than once.  A beginning of a text
  that has no blank at either of its own ends is still its beginning after
  trimming, so an identifier keeps what it was made from.
-/
import Mathlib.Data.List.DropRight
import RunLedger.Text.Blank

set_option autoImplicit false

namespace RunLedger.Text

theorem trimChars_eq_rdropWhile (cs : List Char) :
    trimChars cs = (cs.dropWhile isBlank).rdropWhile isBlank := rfl

/-- A beginning of a text that does not begin with a blank does not either. -/
theorem dropWhile_of_isPrefix {cs whole : List Char} (hbegins : cs <+: whole)
    (hwhole : whole.dropWhile isBlank = whole) : cs.dropWhile isBlank = cs := by
  cases cs with
  | nil => rfl
  | cons c rest =>
    obtain ⟨behind, rfl⟩ := hbegins
    have hc : ¬ isBlank c = true :=
      (List.dropWhile_eq_self_iff.mp hwhole) (Nat.zero_lt_succ _)
    exact List.dropWhile_cons_of_neg hc

theorem dropWhile_trimChars (cs : List Char) :
    (trimChars cs).dropWhile isBlank = trimChars cs :=
  dropWhile_of_isPrefix (List.rdropWhile_prefix isBlank (cs.dropWhile isBlank))
    (List.dropWhile_idempotent isBlank cs)

theorem trimChars_trimChars (cs : List Char) : trimChars (trimChars cs) = trimChars cs := by
  rw [trimChars_eq_rdropWhile (trimChars cs), dropWhile_trimChars, trimChars_eq_rdropWhile,
    List.rdropWhile_idempotent]

@[simp] theorem trim_trim (s : String) : trim (trim s) = trim s := by
  simp only [trim, String.toList_ofList, trimChars_trimChars]

/-- A text without blanks at its ends is left alone. -/
theorem trimChars_eq_self {first last : Char} {middle : List Char}
    (hfirst : isBlank first = false) (hlast : isBlank last = false) :
    trimChars (first :: middle ++ [last]) = first :: middle ++ [last] := by
  rw [trimChars_eq_rdropWhile, List.cons_append, List.dropWhile_cons_of_neg (by simp [hfirst]),
    ← List.cons_append, List.rdropWhile_concat_neg isBlank _ last (by simp [hlast])]

/-- A trimmed text with more behind it that ends without a blank is left alone. -/
theorem trimChars_append_eq_self {cs middle : List Char} {last : Char} (hcs : trimChars cs = cs)
    (hne : cs ≠ []) (hlast : isBlank last = false) :
    trimChars (cs ++ middle ++ [last]) = cs ++ middle ++ [last] := by
  have hdrop : cs.dropWhile isBlank = cs := by
    rw [← hcs]
    exact dropWhile_trimChars cs
  cases cs with
  | nil => exact absurd rfl hne
  | cons first rest =>
    have hfirst : ¬ isBlank first = true :=
      (List.dropWhile_eq_self_iff.mp hdrop) (Nat.zero_lt_succ _)
    exact trimChars_eq_self (by simpa using hfirst) hlast

/-- A beginning without blanks at its own ends is left alone. -/
theorem isPrefix_trimChars {first last : Char} {middle rest : List Char}
    (hfirst : isBlank first = false) (hlast : isBlank last = false) :
    (first :: middle ++ [last]) <+: trimChars (first :: middle ++ [last] ++ rest) := by
  have hdrop : (first :: middle ++ [last] ++ rest).dropWhile isBlank =
      first :: middle ++ [last] ++ rest := by
    simp [hfirst]
  rw [trimChars_eq_rdropWhile, hdrop]
  induction rest using List.reverseRecOn with
  | nil =>
    have hkeeps : (first :: middle ++ [last] ++ []).rdropWhile isBlank =
        first :: middle ++ [last] := by
      rw [List.append_nil, List.rdropWhile_concat_neg isBlank _ last (by simp [hlast])]
    exact hkeeps.symm ▸ List.prefix_rfl
  | append_singleton rest c ih =>
    rw [← List.append_assoc]
    cases hc : isBlank c with
    | true =>
      rw [List.rdropWhile_concat_pos isBlank _ c hc]
      exact ih (by simp [hfirst])
    | false =>
      rw [List.rdropWhile_concat_neg isBlank _ c (by simp [hc]), List.append_assoc _ rest [c]]
      exact List.prefix_append _ _

/-! ## Blank texts -/

theorem trimChars_eq_nil_iff {cs : List Char} :
    trimChars cs = [] ↔ ∀ c ∈ cs, isBlank c = true := by
  rw [trimChars_eq_rdropWhile, List.rdropWhile_eq_nil_iff]
  constructor
  · intro h
    rw [← List.dropWhile_eq_nil_iff]
    by_contra hne
    have hhead : isBlank ((cs.dropWhile isBlank).head hne) = false :=
      List.head_dropWhile_not isBlank hne
    rw [h _ (List.head_mem hne)] at hhead
    cases hhead
  · exact fun h c hc => h c (List.dropWhile_subset isBlank hc)

theorem trim_eq_empty_iff {s : String} : trim s = "" ↔ isBlankText s = true := by
  rw [isBlankText, List.all_eq_true, ← trimChars_eq_nil_iff, trim]
  constructor
  · exact fun h => by simpa using congrArg String.toList h
  · exact fun h => by rw [h, String.ofList_nil]

@[simp] theorem isBlankText_trim (s : String) : isBlankText (trim s) = isBlankText s := by
  rw [Bool.eq_iff_iff, ← trim_eq_empty_iff, ← trim_eq_empty_iff, trim_trim]

theorem isBlankText_eq_false {s : String} {c : Char} (hmem : c ∈ s.toList)
    (hc : isBlank c = false) : isBlankText s = false := by
  rw [isBlankText, List.all_eq_false]
  exact ⟨c, hmem, by simp [hc]⟩

end RunLedger.Text
