/-
  Proofs/Text/Search.lean --- phrases of a sentence that quotes a text.

  WHAT THIS FILE IS FOR.  A sentence quotes a text between two marks.  A phrase
  without the mark stands on one side of each mark, so when the sentence does not
  hold the phrase by itself, whether it occurs is up to the text alone.  With the
  name that follows a phrase in backticks there is a difference: other marks keep
  it inside the text, but a text in backticks lends its own marks to it.
-/
import RunLedger.Text.Search

set_option autoImplicit false

namespace RunLedger.Text

variable {phrase : List Char} {mark : Char}

/-! ## Where a phrase stands -/

theorem eq_of_dropPhrase? {cs rest : List Char} (h : dropPhrase? phrase cs = some rest) :
    cs = phrase ++ rest := by
  induction phrase generalizing cs with
  | nil => exact Option.some.inj h
  | cons p ps ih =>
    cases cs with
    | nil => cases h
    | cons c cs =>
      rw [dropPhrase?] at h
      split at h
      · rename_i hc
        rw [← hc, ih h, List.cons_append]
      · cases h

theorem dropPhrase?_self (phrase rest : List Char) :
    dropPhrase? phrase (phrase ++ rest) = some rest := by
  induction phrase with
  | nil => rfl
  | cons p ps ih => rw [List.cons_append, dropPhrase?, if_pos rfl, ih]

/-- A text that is cut at a phrase holds the phrase. -/
theorem eq_of_cutAt? {cs before after : List Char} (h : cutAt? phrase cs = some (before, after)) :
    cs = before ++ (phrase ++ after) := by
  induction cs generalizing before with
  | nil =>
    rw [cutAt?] at h
    split at h
    · rename_i hempty
      obtain ⟨rfl, rfl⟩ := Prod.mk.inj (Option.some.inj h)
      rw [List.isEmpty_iff.mp hempty]
      rfl
    · cases h
  | cons c cs ih =>
    rw [cutAt?] at h
    split at h
    · rename_i hdrop
      obtain ⟨rfl, rfl⟩ := Prod.mk.inj (Option.some.inj h)
      rw [List.nil_append]
      exact eq_of_dropPhrase? hdrop
    · obtain ⟨⟨before', after'⟩, hcut, heq⟩ := Option.map_eq_some_iff.mp h
      obtain ⟨rfl, rfl⟩ := Prod.mk.inj heq
      rw [ih hcut, List.cons_append]

/-- A text that lacks a character of the phrase lacks the phrase. -/
theorem cutAt?_eq_none {cs : List Char} {c : Char} (hc : c ∈ phrase) (hcs : c ∉ cs) :
    cutAt? phrase cs = none := by
  cases hcut : cutAt? phrase cs with
  | none => rfl
  | some p =>
    refine absurd ?_ hcs
    rw [eq_of_cutAt? hcut]
    exact List.mem_append_right _ (List.mem_append_left _ hc)

/-- A text that begins with the phrase is cut there. -/
theorem cutAt?_self (hphrase : phrase ≠ []) (rest : List Char) :
    cutAt? phrase (phrase ++ rest) = some ([], rest) := by
  obtain ⟨p, ps, rfl⟩ := List.exists_cons_of_ne_nil hphrase
  have hdrop := dropPhrase?_self (p :: ps) rest
  rw [List.cons_append] at hdrop ⊢
  rw [cutAt?, hdrop]

/-! ## On which side of a mark -/

theorem dropPhrase?_append_mark (hmark : mark ∉ phrase) (xs ys : List Char) :
    dropPhrase? phrase (xs ++ mark :: ys) = (dropPhrase? phrase xs).map (· ++ mark :: ys) := by
  induction phrase generalizing xs with
  | nil => rfl
  | cons p ps ih =>
    rw [List.mem_cons, not_or] at hmark
    cases xs with
    | nil =>
      have hdrop : dropPhrase? (p :: ps) (mark :: ys) = none := by
        rw [dropPhrase?, if_neg (Ne.symm hmark.1)]
      rw [List.nil_append, hdrop]
      rfl
    | cons x xs =>
      rw [List.cons_append, dropPhrase?, dropPhrase?]
      split
      · exact ih hmark.2 xs
      · rfl

/-- A phrase without the mark stands before the mark or behind it. -/
theorem cutAt?_append_mark (hphrase : phrase ≠ []) (hmark : mark ∉ phrase) (xs ys : List Char) :
    cutAt? phrase (xs ++ mark :: ys) =
      match cutAt? phrase xs with
      | some (before, after) => some (before, after ++ mark :: ys)
      | none => (cutAt? phrase ys).map fun p => (xs ++ mark :: p.1, p.2) := by
  -- On the text before the mark: the phrase cannot be begun before the mark and ended behind it, so
  -- it is begun at a character here exactly if it is without the mark and what follows.
  induction xs with
  | nil =>
    have hdrop : dropPhrase? phrase (mark :: ys) = none := by
      have happend := dropPhrase?_append_mark hmark [] ys
      obtain ⟨p, ps, rfl⟩ := List.exists_cons_of_ne_nil hphrase
      exact happend
    have hnil : cutAt? phrase [] = none := by
      rw [cutAt?, if_neg (by simpa using hphrase)]
    have hcut : cutAt? phrase (mark :: ys) =
        (cutAt? phrase ys).map fun p => (mark :: p.1, p.2) := by
      rw [cutAt?, hdrop]
    rw [List.nil_append, hcut, hnil]
    rfl
  | cons x xs ih =>
    have hdrop := dropPhrase?_append_mark hmark (x :: xs) ys
    rw [List.cons_append] at hdrop ⊢
    rw [cutAt?, cutAt?, hdrop]
    cases dropPhrase? phrase (x :: xs) with
    | some rest => rfl
    | none =>
      rw [Option.map_none, ih]
      rcases cutAt? phrase xs with _ | ⟨before, after⟩
      · rw [Option.map_map, Option.map_none]
        rfl
      · rfl

theorem cutAt?_append_mark_eq_none_iff (hphrase : phrase ≠ []) (hmark : mark ∉ phrase)
    {xs ys : List Char} : cutAt? phrase (xs ++ mark :: ys) = none ↔
      cutAt? phrase xs = none ∧ cutAt? phrase ys = none := by
  rw [cutAt?_append_mark hphrase hmark]
  rcases cutAt? phrase xs with _ | ⟨before, after⟩ <;> simp

/-! ## Marks as phrases -/

/-- A text is cut at the first mark, which it stands behind if it has none itself. -/
theorem cutAt?_mark {cs : List Char} (hcs : mark ∉ cs) (rest : List Char) :
    cutAt? [mark] (cs ++ mark :: rest) = some (cs, rest) := by
  induction cs with
  | nil => rw [List.nil_append, cutAt?, dropPhrase?, if_pos rfl]; rfl
  | cons c cs ih =>
    rw [List.mem_cons, not_or] at hcs
    rw [List.cons_append, cutAt?, dropPhrase?, if_neg hcs.1, ih hcs.2]
    rfl

theorem cutAt?_mark_ne_none {cs : List Char} (hcs : mark ∈ cs) : cutAt? [mark] cs ≠ none := by
  induction cs with
  | nil => cases hcs
  | cons c cs ih =>
    rw [cutAt?, dropPhrase?]
    by_cases hc : mark = c
    · rw [if_pos hc]
      simp [dropPhrase?]
    · rw [if_neg hc]
      simpa using ih ((List.mem_cons.mp hcs).resolve_left hc)

/-! ## The name behind a phrase -/

/-- What stands before the phrase, or everything. -/
def upTo (phrase cs : List Char) : List Char :=
  match cutAt? phrase cs with
  | some (before, _) => before
  | none => cs

/-- The name in backticks that a text begins with. -/
def leadingName? : List Char → Option (List Char)
  | '\x60' :: rest => (cutAt? ['\x60'] rest).map Prod.fst
  | _ => none

theorem namedAfter?_eq (phrase cs : List Char) :
    namedAfter? phrase cs = (cutAt? phrase cs).bind fun p => leadingName? (upTo phrase p.2) := by
  have hafter : afterPhrase? phrase cs = (cutAt? phrase cs).map fun p => upTo phrase p.2 := rfl
  rw [namedAfter?, hafter]
  rcases cutAt? phrase cs with _ | ⟨before, after⟩
  · rfl
  · rw [Option.map_some, Option.bind_some]
    generalize upTo phrase after = name
    unfold leadingName?
    split
    · rename_i rest heq
      rw [Option.some.inj heq]
      rfl
    · rename_i hnone
      split
      · exact absurd rfl (hnone _)
      · rfl

theorem leadingName?_of_ne {c : Char} (hc : c ≠ '\x60') (cs : List Char) :
    leadingName? (c :: cs) = none := by
  unfold leadingName?
  split
  · rename_i heq
    exact absurd (List.cons.inj heq).1 hc
  · rfl

/-- Behind another mark, no backtick can end a name that has begun before. -/
theorem leadingName?_append {cs rest : List Char} (hmark : mark ≠ '\x60')
    (hrest : '\x60' ∉ rest) : leadingName? (cs ++ mark :: rest) = leadingName? cs := by
  cases cs with
  | nil => exact leadingName?_of_ne hmark rest
  | cons c cs =>
    by_cases hc : c = '\x60'
    · subst hc
      have hnone : cutAt? ['\x60'] rest = none := cutAt?_eq_none (List.mem_singleton_self _) hrest
      rw [List.cons_append, leadingName?, leadingName?,
        cutAt?_append_mark (by simp) (by simpa using hmark), hnone]
      rcases cutAt? ['\x60'] cs with _ | ⟨before, after⟩ <;> rfl
    · rw [List.cons_append, leadingName?_of_ne hc, leadingName?_of_ne hc]

/-- Behind the backtick that closes a quotation, the one that opens the next ends a name. -/
theorem leadingName?_append_tick {cs rest : List Char} (hrest : '\x60' ∈ rest) :
    leadingName? (cs ++ '\x60' :: rest) = none ↔ ∃ c ∈ cs.head?, c ≠ '\x60' := by
  cases cs with
  | nil => simpa [leadingName?] using cutAt?_mark_ne_none hrest
  | cons c cs =>
    by_cases hc : c = '\x60'
    · subst hc
      have hmem : '\x60' ∈ cs ++ '\x60' :: rest := by simp
      simpa [leadingName?] using cutAt?_mark_ne_none hmem
    · simp [List.cons_append, leadingName?_of_ne hc, hc]

/-- A quotation in backticks is the name if it has none itself. -/
theorem leadingName?_ticked_iff {quoted rest : List Char} :
    leadingName? ('\x60' :: (quoted ++ '\x60' :: rest)) = some quoted ↔ '\x60' ∉ quoted := by
  rw [leadingName?]
  constructor
  · intro hname hmem
    obtain ⟨first, others, hquoted, hfirst⟩ := List.eq_append_cons_of_mem hmem
    have hcut := cutAt?_mark hfirst (others ++ '\x60' :: rest)
    rw [hquoted, List.append_assoc, List.cons_append, hcut] at hname
    have hlength := congrArg List.length (Option.some.inj hname)
    simp at hlength
  · intro hquoted
    rw [cutAt?_mark hquoted]
    rfl

/-- The name is shorter than what it leads. -/
theorem length_of_leadingName? {cs name : List Char} (h : leadingName? cs = some name) :
    name.length + 1 < cs.length := by
  unfold leadingName? at h
  split at h
  · obtain ⟨⟨before, after⟩, hcut, rfl⟩ := Option.map_eq_some_iff.mp h
    rw [eq_of_cutAt? hcut]
    simp
  · cases h

theorem upTo_append_mark (hphrase : phrase ≠ []) (hmark : mark ∉ phrase) {xs ys : List Char}
    (hys : cutAt? phrase ys = none) : upTo phrase (xs ++ mark :: ys) =
      match cutAt? phrase xs with
      | some (before, _) => before
      | none => xs ++ mark :: ys := by
  unfold upTo
  rw [cutAt?_append_mark hphrase hmark, hys]
  rcases cutAt? phrase xs with _ | ⟨before, after⟩ <;> rfl

/-! ## Sentences -/

section

variable {before quoted behind : List Char}

/-- A phrase that the sentence does not hold by itself is cut in the quoted text. -/
theorem cutAt?_quoted (hphrase : phrase ≠ []) (hmark : mark ∉ phrase)
    (hbefore : cutAt? phrase before = none) (hbehind : cutAt? phrase behind = none) :
    cutAt? phrase (before ++ mark :: (quoted ++ mark :: behind)) =
      (cutAt? phrase quoted).map fun p =>
        (before ++ mark :: p.1, p.2 ++ mark :: behind) := by
  rw [cutAt?_append_mark hphrase hmark, hbefore, cutAt?_append_mark hphrase hmark, hbehind]
  rcases cutAt? phrase quoted with _ | ⟨first, rest⟩ <;> rfl

/-- Between other marks than backticks, what follows a phrase is up to the quoted text. -/
theorem namedAfter?_quoted (hphrase : phrase ≠ []) (hmark : mark ∉ phrase) (htick : mark ≠ '\x60')
    (hbefore : cutAt? phrase before = none) (hbehind : cutAt? phrase behind = none)
    (hbehindTick : '\x60' ∉ behind) :
    namedAfter? phrase (before ++ mark :: (quoted ++ mark :: behind)) =
      namedAfter? phrase quoted := by
  rw [namedAfter?_eq, namedAfter?_eq, cutAt?_quoted hphrase hmark hbefore hbehind]
  rcases cutAt? phrase quoted with _ | ⟨first, rest⟩
  · rfl
  · simp only [Option.map_some, Option.bind_some]
    rw [upTo_append_mark hphrase hmark hbehind]
    unfold upTo
    rcases cutAt? phrase rest with _ | ⟨between, -⟩
    · exact leadingName?_append htick hbehindTick
    · rfl

/-- Between backticks, what follows a phrase is up to the quoted text and the mark that closes
it. -/
theorem namedAfter?_ticked_eq_none_iff (hphrase : phrase ≠ []) (hmark : '\x60' ∉ phrase)
    (hbefore : cutAt? phrase before = none) (hbehind : cutAt? phrase behind = none)
    (hbehindTick : '\x60' ∈ behind) :
    namedAfter? phrase (before ++ '\x60' :: (quoted ++ '\x60' :: behind)) = none ↔
      namedAfter? phrase (quoted ++ ['\x60', '\x60']) = none := by
  have htick : cutAt? phrase ['\x60'] = none := by
    obtain ⟨c, hc⟩ := List.exists_mem_of_ne_nil phrase hphrase
    refine cutAt?_eq_none hc fun hmem => hmark ?_
    rwa [← List.mem_singleton.mp hmem]
  rw [namedAfter?_eq, namedAfter?_eq, cutAt?_quoted hphrase hmark hbefore hbehind,
    cutAt?_append_mark hphrase hmark, htick]
  rcases cutAt? phrase quoted with _ | ⟨first, rest⟩
  · simp
  · simp only [Option.map_some, Option.bind_some]
    rw [upTo_append_mark hphrase hmark hbehind, upTo_append_mark hphrase hmark htick]
    rcases cutAt? phrase rest with _ | ⟨between, after⟩
    · rw [leadingName?_append_tick hbehindTick, leadingName?_append_tick (List.mem_singleton_self _)]
    · rfl

/-- A sentence that begins with the phrase and a quotation in backticks has the quoted text for the
name behind the phrase if that text has neither the phrase nor a backtick, and only then. -/
theorem namedAfter?_leading_iff (hphrase : phrase ≠ []) (hmark : '\x60' ∉ phrase)
    (hbehind : cutAt? phrase behind = none) :
    namedAfter? phrase (phrase ++ '\x60' :: (quoted ++ '\x60' :: behind)) = some quoted ↔
      '\x60' ∉ quoted ∧ cutAt? phrase quoted = none := by
  have hnil : cutAt? phrase [] = none := by
    rw [cutAt?, if_neg (by simpa using hphrase)]
  rw [namedAfter?_eq, cutAt?_self hphrase, Option.bind_some]
  have hcut : cutAt? phrase ('\x60' :: (quoted ++ '\x60' :: behind)) = (cutAt? phrase quoted).map
      fun cut => ('\x60' :: cut.1, cut.2 ++ '\x60' :: behind) :=
    cutAt?_quoted hphrase hmark hnil hbehind
  unfold upTo
  rw [hcut]
  rcases hquoted : cutAt? phrase quoted with _ | ⟨first, rest⟩
  · simpa using leadingName?_ticked_iff
  · have hlength : first.length ≤ quoted.length := by
      rw [eq_of_cutAt? hquoted]
      simp
    refine ⟨fun hname => ?_, fun h => nomatch h.2⟩
    have hshorter : quoted.length + 1 < ('\x60' :: first).length := length_of_leadingName? hname
    rw [List.length_cons] at hshorter
    omega

end

end RunLedger.Text
