/-
  Proofs/Event/Phrases.lean --- the phrases that sort a sentence.

  WHAT THIS FILE IS FOR.  The code and the field of a refusal are read off its
  sentence: the first of four phrases that the sentence holds decides.  Here is
  what each of the answers says about the sentence, and that marks around a
  quoted text keep it apart: a phrase begins and ends on one side of a mark.
-/
import Mathlib.Logic.Basic
import RunLedger.Event.Problem
import RunLedger.Proofs.Text.Search

set_option autoImplicit false

namespace RunLedger

open RunLedger.Decode
open RunLedger.Text

/-- The code is one of a field that is missing. -/
def ProblemCode.isMissing : ProblemCode → Bool
  | missingEventId => true
  | missingRunId => true
  | missingTimestamp => true
  | missingEventType => true
  | missingActor => true
  | missingTimelineFields => true
  | missingApproval => true
  | missingRequiredField => true
  | _ => false

namespace Problem

/-! ## The four phrases -/

/-- The phrase before the name of a field that is missing. -/
def missingPhrase : List Char := "missing field ".toList

/-- The phrase before a key that is unknown. -/
def unknownPhrase : List Char := "unknown field ".toList

/-- The phrase of a name that is not due. -/
def variantPhrase : List Char := "unknown variant".toList

/-- The phrases that a sentence is searched for. -/
def phrases : List (List Char) := [missingPhrase, unknownPhrase, variantPhrase, timestampPhrase]

/-- The text holds none of the phrases. -/
def Quiet (cs : List Char) : Prop := ∀ phrase ∈ phrases, cutAt? phrase cs = none

instance (cs : List Char) : Decidable (Quiet cs) :=
  inferInstanceAs (Decidable (∀ phrase ∈ phrases, _))

theorem ne_nil_of_mem_phrases {phrase : List Char} (h : phrase ∈ phrases) : phrase ≠ [] :=
  (by decide : ∀ phrase ∈ phrases, phrase ≠ []) phrase h

/-- The marks that stand around quoted texts and before what would have been right. -/
def marks : List Char := ['\x60', '"', '\x27', ',']

theorem not_mem_of_mem_marks {phrase : List Char} {mark : Char} (h : phrase ∈ phrases)
    (hmark : mark ∈ marks) : mark ∉ phrase := by
  have hall : ∀ phrase ∈ phrases, marks.all (fun mark => decide (mark ∉ phrase)) = true := by decide
  exact of_decide_eq_true (List.all_eq_true.mp (hall phrase h) mark hmark)

theorem quiet_append_mark {xs ys : List Char} {mark : Char} (hmark : mark ∈ marks) :
    Quiet (xs ++ mark :: ys) ↔ Quiet xs ∧ Quiet ys := by
  unfold Quiet
  rw [← forall₂_and]
  refine forall₂_congr fun phrase hphrase => ?_
  exact cutAt?_append_mark_eq_none_iff (ne_nil_of_mem_phrases hphrase)
    (not_mem_of_mem_marks hphrase hmark)

/-- Each phrase has one of two letters. -/
theorem quiet_of_letters {cs : List Char} (hs : 's' ∉ cs) (hk : 'k' ∉ cs) : Quiet cs := by
  intro phrase hphrase
  have hletter : 's' ∈ phrase ∨ 'k' ∈ phrase :=
    (by decide : ∀ phrase ∈ phrases, 's' ∈ phrase ∨ 'k' ∈ phrase) phrase hphrase
  rcases hletter with h | h
  · exact cutAt?_eq_none h hs
  · exact cutAt?_eq_none h hk

/-! ## What a sentence is sorted as -/

/-- No field is named in the text behind one of the first two phrases. -/
def NamesNoField (cs : List Char) : Prop :=
  namedAfter? missingPhrase cs = none ∧ namedAfter? unknownPhrase cs = none

theorem Quiet.namesNoField {cs : List Char} (h : Quiet cs) : NamesNoField cs := by
  have hmissing : cutAt? missingPhrase cs = none := h _ (by simp [phrases])
  have hunknown : cutAt? unknownPhrase cs = none := h _ (by simp [phrases])
  rw [NamesNoField, namedAfter?_eq, namedAfter?_eq, hmissing, hunknown]
  exact ⟨rfl, rfl⟩

theorem isMissing_codeOfMissing (field : String) : (codeOfMissing field).isMissing = true := by
  unfold codeOfMissing
  split <;> rfl

section

variable {message : String}

theorem ofMessage_eq (message : String) :
    ofMessage message =
      match namedAfter? missingPhrase message.toList with
      | some field => ⟨.ofList field, message, codeOfMissing (.ofList field)⟩
      | none =>
        match namedAfter? unknownPhrase message.toList with
        | some field => ⟨.ofList field, message, .unknownField⟩
        | none =>
          if hasPhrase variantPhrase message.toList then ⟨"", message, .invalidEnumValue⟩
          else if hasPhrase timestampPhrase message.toList then
            ⟨"timestamp", message, .invalidTimestamp⟩
          else ⟨"", message, .schemaValidation⟩ := rfl

theorem ofMessage_of_missing {field : List Char}
    (h : namedAfter? missingPhrase message.toList = some field) :
    ofMessage message = ⟨.ofList field, message, codeOfMissing (.ofList field)⟩ := by
  rw [ofMessage_eq, h]

theorem ofMessage_of_unknown {key : List Char}
    (hmissing : namedAfter? missingPhrase message.toList = none)
    (hunknown : namedAfter? unknownPhrase message.toList = some key) :
    ofMessage message = ⟨.ofList key, message, .unknownField⟩ := by
  rw [ofMessage_eq, hmissing, hunknown]

theorem ofMessage_of_namesNoField (h : NamesNoField message.toList) :
    ofMessage message =
      if hasPhrase variantPhrase message.toList then ⟨"", message, .invalidEnumValue⟩
      else if hasPhrase timestampPhrase message.toList then
        ⟨"timestamp", message, .invalidTimestamp⟩
      else ⟨"", message, .schemaValidation⟩ := by
  rw [ofMessage_eq, h.1, h.2]

/-- A sentence that names a field is sorted as one about a field. -/
theorem namesNoField_of_code (hmissing : (ofMessage message).code.isMissing = false)
    (hunknown : (ofMessage message).code ≠ .unknownField) : NamesNoField message.toList := by
  cases hm : namedAfter? missingPhrase message.toList with
  | some field =>
    rw [ofMessage_of_missing hm, isMissing_codeOfMissing] at hmissing
    cases hmissing
  | none =>
    refine ⟨hm, ?_⟩
    cases hu : namedAfter? unknownPhrase message.toList with
    | none => rfl
    | some key => exact absurd (by rw [ofMessage_of_unknown hm hu]) hunknown

theorem ofMessage_eq_unknown_iff {key : String} :
    ofMessage message = ⟨key, message, .unknownField⟩ ↔
      namedAfter? missingPhrase message.toList = none ∧
        namedAfter? unknownPhrase message.toList = some key.toList := by
  constructor
  · intro h
    cases hm : namedAfter? missingPhrase message.toList with
    | some field =>
      have hcode := isMissing_codeOfMissing (.ofList field)
      have hsame := congrArg Problem.code ((ofMessage_of_missing hm).symm.trans h)
      dsimp only at hsame
      rw [hsame] at hcode
      cases hcode
    | none =>
      refine ⟨rfl, ?_⟩
      cases hu : namedAfter? unknownPhrase message.toList with
      | none =>
        rw [ofMessage_of_namesNoField ⟨hm, hu⟩] at h
        split at h
        · cases congrArg Problem.code h
        · split at h <;> cases congrArg Problem.code h
      | some found =>
        have hkey : String.ofList found = key :=
          congrArg Problem.path ((ofMessage_of_unknown hm hu).symm.trans h)
        rw [← hkey, String.toList_ofList]
  · rintro ⟨hm, hu⟩
    rw [ofMessage_of_unknown hm hu, String.ofList_toList]

theorem ofMessage_eq_enum_iff :
    ofMessage message = ⟨"", message, .invalidEnumValue⟩ ↔
      NamesNoField message.toList ∧ hasPhrase variantPhrase message.toList = true := by
  constructor
  · intro h
    have hnone : NamesNoField message.toList :=
      namesNoField_of_code (by rw [h]; rfl) (by simp [h])
    refine ⟨hnone, ?_⟩
    rw [ofMessage_of_namesNoField hnone] at h
    split at h
    · assumption
    · split at h <;> cases congrArg Problem.code h
  · rintro ⟨hnone, hvariant⟩
    rw [ofMessage_of_namesNoField hnone, if_pos hvariant]

theorem ofMessage_eq_timestamp_iff :
    ofMessage message = ⟨"timestamp", message, .invalidTimestamp⟩ ↔
      NamesNoField message.toList ∧ hasPhrase variantPhrase message.toList = false ∧
        hasPhrase timestampPhrase message.toList = true := by
  constructor
  · intro h
    have hnone : NamesNoField message.toList :=
      namesNoField_of_code (by rw [h]; rfl) (by simp [h])
    refine ⟨hnone, ?_⟩
    rw [ofMessage_of_namesNoField hnone] at h
    split at h
    · cases congrArg Problem.code h
    · rename_i hvariant
      split at h
      · rename_i htimestamp
        exact ⟨by simpa using hvariant, htimestamp⟩
      · cases congrArg Problem.code h
  · rintro ⟨hnone, hvariant, htimestamp⟩
    rw [ofMessage_of_namesNoField hnone, if_neg (by simp [hvariant]), if_pos htimestamp]

theorem ofMessage_eq_schema_iff :
    ofMessage message = ⟨"", message, .schemaValidation⟩ ↔
      NamesNoField message.toList ∧ hasPhrase variantPhrase message.toList = false ∧
        hasPhrase timestampPhrase message.toList = false := by
  constructor
  · intro h
    have hnone : NamesNoField message.toList :=
      namesNoField_of_code (by rw [h]; rfl) (by simp [h])
    refine ⟨hnone, ?_⟩
    rw [ofMessage_of_namesNoField hnone] at h
    split at h
    · cases congrArg Problem.code h
    · rename_i hvariant
      split at h
      · cases congrArg Problem.code h
      · rename_i htimestamp
        exact ⟨by simpa using hvariant, by simpa using htimestamp⟩
  · rintro ⟨hnone, hvariant, htimestamp⟩
    rw [ofMessage_of_namesNoField hnone, if_neg (by simp [hvariant]), if_neg (by simp [htimestamp])]

/-- A sentence without phrases is sorted as none of the four. -/
theorem ofMessage_of_quiet (h : Quiet message.toList) :
    ofMessage message = ⟨"", message, .schemaValidation⟩ := by
  have hvariant : cutAt? variantPhrase message.toList = none := h _ (by simp [phrases])
  have htimestamp : cutAt? timestampPhrase message.toList = none := h _ (by simp [phrases])
  exact ofMessage_eq_schema_iff.mpr
    ⟨h.namesNoField, by rw [hasPhrase, hvariant]; rfl, by rw [hasPhrase, htimestamp]; rfl⟩

end

/-! ## Quoted texts -/

/-- The closing mark of a quotation in backticks, and the opening one of the next. -/
def ticks : List Char := ['\x60', '\x60']

theorem hasPhrase_iff {phrase cs : List Char} :
    hasPhrase phrase cs = false ↔ cutAt? phrase cs = none := by
  rw [hasPhrase, Option.isSome_eq_false_iff, Option.isNone_iff_eq_none]

section

variable {before quoted behind : List Char} {mark : Char}

/-- Between marks, the quoted text decides on a phrase that the sentence does not hold itself. -/
theorem hasPhrase_quoted {phrase : List Char} (hphrase : phrase ∈ phrases) (hmark : mark ∈ marks)
    (hbefore : cutAt? phrase before = none) (hbehind : Quiet behind) :
    hasPhrase phrase (before ++ mark :: (quoted ++ mark :: behind)) = hasPhrase phrase quoted := by
  unfold hasPhrase
  rw [cutAt?_quoted (ne_nil_of_mem_phrases hphrase) (not_mem_of_mem_marks hphrase hmark) hbefore
    (hbehind _ hphrase), Option.isSome_map]

/-- Between other marks than backticks, the quoted text decides on the names of fields. -/
theorem namesNoField_quoted (hmark : mark ∈ marks) (htick : mark ≠ '\x60')
    (hmissing : cutAt? missingPhrase before = none) (hunknown : cutAt? unknownPhrase before = none)
    (hbehind : Quiet behind) (hbehindTick : '\x60' ∉ behind) :
    NamesNoField (before ++ mark :: (quoted ++ mark :: behind)) ↔ NamesNoField quoted := by
  have hnamed (phrase : List Char) (hphrase : phrase ∈ phrases)
      (hbefore : cutAt? phrase before = none) :
      namedAfter? phrase (before ++ mark :: (quoted ++ mark :: behind)) =
        namedAfter? phrase quoted :=
    namedAfter?_quoted (ne_nil_of_mem_phrases hphrase) (not_mem_of_mem_marks hphrase hmark) htick
      hbefore (hbehind _ hphrase) hbehindTick
  rw [NamesNoField, NamesNoField, hnamed missingPhrase (by simp [phrases]) hmissing,
    hnamed unknownPhrase (by simp [phrases]) hunknown]

/-- Between backticks, the quoted text and the marks behind it do. -/
theorem namesNoField_ticked (hmissing : cutAt? missingPhrase before = none)
    (hunknown : cutAt? unknownPhrase before = none) (hbehind : Quiet behind)
    (hbehindTick : '\x60' ∈ behind) :
    NamesNoField (before ++ '\x60' :: (quoted ++ '\x60' :: behind)) ↔
      NamesNoField (quoted ++ ticks) := by
  have hnamed (phrase : List Char) (hphrase : phrase ∈ phrases)
      (hbefore : cutAt? phrase before = none) :
      namedAfter? phrase (before ++ '\x60' :: (quoted ++ '\x60' :: behind)) = none ↔
        namedAfter? phrase (quoted ++ ticks) = none :=
    namedAfter?_ticked_eq_none_iff (ne_nil_of_mem_phrases hphrase)
      (not_mem_of_mem_marks hphrase (by simp [marks])) hbefore (hbehind _ hphrase) hbehindTick
  rw [NamesNoField, NamesNoField, hnamed missingPhrase (by simp [phrases]) hmissing,
    hnamed unknownPhrase (by simp [phrases]) hunknown]

end

/-! ## Names that are listed -/

/-- The text is one word: it has neither a blank nor a backtick. -/
def IsWord (name : String) : Prop := ' ' ∉ name.toList ∧ '\x60' ∉ name.toList

instance (name : String) : Decidable (IsWord name) :=
  inferInstanceAs (Decidable (_ ∧ _))

/-- Each phrase has a blank. -/
theorem IsWord.quiet {name : String} (h : IsWord name) : Quiet name.toList := fun phrase hphrase =>
  cutAt?_eq_none ((by decide : ∀ phrase ∈ phrases, ' ' ∈ phrase) phrase hphrase) h.1

theorem quiet_ticked {before behind : List Char} {name : String} :
    Quiet (before ++ ((ticked name).toList ++ behind)) ↔
      Quiet before ∧ Quiet name.toList ∧ Quiet behind := by
  have hlist : before ++ ((ticked name).toList ++ behind) =
      before ++ '\x60' :: (name.toList ++ '\x60' :: behind) := by simp [ticked]
  rw [hlist, quiet_append_mark (by simp [marks]), quiet_append_mark (by simp [marks])]

theorem quiet_enumeration {names : List String} (h : ∀ name ∈ names, IsWord name)
    {before : List Char} (hbefore : Quiet before) :
    Quiet (before ++ (String.intercalate ", " (names.map ticked)).toList) := by
  have hnil : Quiet [] := by decide
  -- The comma behind a name is what stands before the next one, so that text is left open.
  induction names generalizing before with
  | nil => simpa using hbefore
  | cons name rest ih =>
    have hname := (h name List.mem_cons_self).quiet
    cases rest with
    | nil =>
      rw [List.map_singleton, String.intercalate_singleton, ← List.append_nil (ticked name).toList]
      exact quiet_ticked.mpr ⟨hbefore, hname, hnil⟩
    | cons next rest =>
      rw [List.map_cons, List.map_cons, String.intercalate_cons_cons, String.toList_append,
        String.toList_append, List.append_assoc (ticked name).toList]
      refine quiet_ticked.mpr ⟨hbefore, hname, ?_⟩
      exact ih (fun other hother => h other (List.mem_cons_of_mem _ hother)) (by decide)

/-- The names that would have been right make no phrase. -/
theorem quiet_expectedNames {names : List String} (h : ∀ name ∈ names, IsWord name) :
    Quiet (", " ++ expectedNames names).toList := by
  unfold expectedNames
  split
  · rename_i a
    have hlist : (", " ++ ("expected " ++ ticked a)).toList =
        ", expected ".toList ++ ((ticked a).toList ++ []) := by simp
    rw [hlist, quiet_ticked]
    exact ⟨by decide, (h a (by simp)).quiet, by decide⟩
  · rename_i a b
    have hlist : (", " ++ ("expected " ++ ticked a ++ " or " ++ ticked b)).toList =
        ", expected ".toList ++ ((ticked a).toList ++ (" or ".toList ++
          ((ticked b).toList ++ []))) := by simp
    rw [hlist, quiet_ticked, quiet_ticked]
    exact ⟨by decide, (h a (by simp)).quiet, by decide, (h b (by simp)).quiet, by decide⟩
  · have hlist : (", " ++ ("expected one of " ++ String.intercalate ", " (names.map ticked))).toList =
        ", expected one of ".toList ++ (String.intercalate ", " (names.map ticked)).toList := by
      rw [String.toList_append, String.toList_append, ← List.append_assoc]
      rfl
    rw [hlist]
    exact quiet_enumeration h (by decide)

theorem tick_mem_ticked (name : String) : '\x60' ∈ (ticked name).toList := by
  simp [ticked]

/-- Where a name would have been right, there are backticks. -/
theorem tick_mem_expectedNames {names : List String} (h : names ≠ []) :
    '\x60' ∈ (", " ++ expectedNames names).toList := by
  have hnames : '\x60' ∈ (expectedNames names).toList := by
    unfold expectedNames
    split
    · simp [tick_mem_ticked]
    · simp [tick_mem_ticked]
    · obtain ⟨name, rest, rfl⟩ := List.exists_cons_of_ne_nil h
      rw [List.map_cons]
      rcases rest with _ | ⟨next, rest⟩
      · simp [tick_mem_ticked]
      · simp only [List.map_cons, String.intercalate_cons_cons, String.toList_append,
          List.mem_append]
        exact .inr (.inl (.inl (tick_mem_ticked name)))
  rw [String.toList_append]
  exact List.mem_append_right _ hnames

end Problem

end RunLedger
