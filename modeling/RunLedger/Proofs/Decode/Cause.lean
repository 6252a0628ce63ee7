/-
  Proofs/Decode/Cause.lean --- what stops the decoding of a value.

  WHAT THIS FILE IS FOR.  Decoding ends with the first thing that is wrong.  Here
  is, decoder by decoder, what that can be when it is a value that is decoded, and
  what is the case then: a fault tells of the value what it says.
-/
import RunLedger.Proofs.Decode.Record

set_option autoImplicit false

namespace RunLedger

open RunLedger.Time (Instant)

namespace Json

/-- The value writes a name: it is the name, or an object with the name for its only key. -/
def Writes (w : Json) (name : String) : Prop :=
  w = .text name ∨ ∃ carried, w = .object [(name, carried)]

end Json

namespace Decode

open RunLedger.Json (Draft)
open RunLedger.Decimal (Binary64)

/-! ## Plain values -/

section

variable {w : Json} {fault : Fault}

/-- A value in the place of another is told by its kind. -/
theorem exists_found {wanted : String} (h : misplaced w.toDraft wanted = fault) :
    ∃ found, fault = .wrongType found wanted := by
  subst h
  cases w with
  | list items => exact ⟨.list, by rw [Json.toDraft_list]; rfl⟩
  | object members => exact ⟨.object, by rw [Json.toDraft_object]; rfl⟩
  | _ => exact ⟨_, rfl⟩

theorem text_eq_error (h : text w.toDraft = .error fault) :
    ∃ found, fault = .wrongType found "a string" := by
  unfold text at h
  split at h
  · cases h
  · exact exists_found (Except.error.inj h)

theorem bool_eq_error (h : bool w.toDraft = .error fault) :
    ∃ found, fault = .wrongType found "a boolean" := by
  unfold bool at h
  split at h
  · cases h
  · exact exists_found (Except.error.inj h)

theorem nothing_eq_error (h : nothing w.toDraft = .error fault) :
    ∃ found, fault = .wrongType found "unit" := by
  unfold nothing at h
  split at h
  · cases h
  · exact exists_found (Except.error.inj h)

/-- A number is read by rounding or not at all, whatever the rounding does. -/
theorem eq_error_of_rounding {f : Int → Option Binary64} {draft : Draft}
    (h : (match draft with
      | .number (.real x) => .ok x
      | .number (.whole n) =>
        match f n with
        | some x => .ok x
        | none => .error (.outOfRange n "f64")
      | draft => .error (misplaced draft "f64")) = (.error fault : Except Fault Binary64)) :
    fault = misplaced draft "f64" ∨ ∃ n, fault = .outOfRange n "f64" := by
  split at h
  · cases h
  · split at h
    · cases h
    · exact .inr ⟨_, (Except.error.inj h).symm⟩
  · exact .inl (Except.error.inj h).symm

theorem real_eq_error (h : real w.toDraft = .error fault) :
    (∃ found, fault = .wrongType found "f64") ∨ ∃ n, fault = .outOfRange n "f64" := by
  unfold real at h
  rcases eq_error_of_rounding h with hfault | hfault
  · exact .inl (exists_found hfault.symm)
  · exact .inr hfault

theorem optional_eq_error {α : Type} {decode : Decoder α}
    (h : optional decode w.toDraft = .error fault) : decode w.toDraft = .error fault := by
  have hmap : (decode w.toDraft).map some = .error fault := by
    cases w with
    | null => cases h
    | list items => rwa [Json.toDraft_list] at h ⊢
    | object members => rwa [Json.toDraft_object] at h ⊢
    | _ => exact h
  exact map_eq_error_iff.mp hmap

theorem items_eq_error {α : Type} {decode : Decoder α} {values : List Json}
    (h : items decode (values.map Json.toDraft) = .error fault) :
    ∃ x ∈ values, decode x.toDraft = .error fault := by
  induction values with
  | nil => cases h
  | cons x values ih =>
    rw [List.map_cons, items] at h
    split at h
    · rename_i other hdecode
      exact ⟨x, List.mem_cons_self, hdecode.trans (congrArg _ (Except.error.inj h))⟩
    · obtain ⟨y, hy, herror⟩ := ih (map_eq_error_iff.mp h)
      exact ⟨y, List.mem_cons_of_mem x hy, herror⟩

theorem list_eq_error {α : Type} {decode : Decoder α}
    (h : list decode w.toDraft = .error fault) :
    (∃ found, fault = .wrongType found "a sequence") ∨
      ∃ values, w = .list values ∧ ∃ x ∈ values, decode x.toDraft = .error fault := by
  cases w with
  | list values =>
    refine .inr ⟨values, rfl, items_eq_error ?_⟩
    rw [Json.toDraft_list, list] at h
    rcases bind_eq_error_iff.mp h with hitems | ⟨decoded, -, hend⟩
    · exact hitems
    · cases hend
  | object members =>
    rw [Json.toDraft_object] at h
    exact .inl ⟨.object, (Except.error.inj h).symm⟩
  | _ => exact .inl ⟨_, (Except.error.inj h).symm⟩

theorem named_eq_error {α : Type} {names : List (String × α)} {name : String}
    (h : named names name = .error fault) :
    name ∉ names.map Prod.fst ∧ fault = .unknownName name (names.map Prod.fst) := by
  unfold named at h
  split at h
  · cases h
  · rename_i hnone
    exact ⟨lookup_eq_none_iff.mp hnone, (Except.error.inj h).symm⟩

theorem choice_of_two {α : Type} {names : List (String × α)} {drafts : List (String × Draft)}
    (h : 2 ≤ drafts.length) (closing : Json.Closing) :
    choice .value names (.object drafts closing) = .error .notSingleKey := by
  rcases drafts with _ | ⟨first, _ | ⟨second, rest⟩⟩
  · cases h
  · simp at h
  · rfl

/-- What stops the reading of a name: a name that is not due, or something that is no name. -/
theorem choice_eq_error {α : Type} {names : List (String × α)}
    (h : choice .value names w.toDraft = .error fault) :
    (∃ name, w.Writes name ∧ name ∉ names.map Prod.fst ∧
        fault = .unknownName name (names.map Prod.fst)) ∨
      fault = .notSingleKey ∨
      ∃ found wanted, wanted ∈ ["unit", "string or map"] ∧ fault = .wrongType found wanted := by
  cases w with
  | text name =>
    obtain ⟨hname, hfault⟩ := named_eq_error h
    exact .inl ⟨name, .inl rfl, hname, hfault⟩
  | object members =>
    rcases members with _ | ⟨⟨name, carried⟩, _ | ⟨second, rest⟩⟩
    · rw [Json.toDraft_object, List.mergeSort_nil] at h
      exact .inr (.inl (Except.error.inj h).symm)
    · rw [Json.toDraft_object, List.mergeSort_singleton] at h
      rcases bind_eq_error_iff.mp h with hnamed | ⟨a, -, hbehind⟩
      · obtain ⟨hname, hfault⟩ := named_eq_error hnamed
        exact .inl ⟨name, .inr ⟨carried, rfl⟩, hname, hfault⟩
      · rcases bind_eq_error_iff.mp hbehind with hcarried | ⟨_, -, hpure⟩
        · obtain ⟨found, hfault⟩ := nothing_eq_error hcarried
          exact .inr (.inr ⟨found, "unit", by simp, hfault⟩)
        · cases hpure
    · -- The members are put in order first; which comes first does not matter where there are two.
      rw [Json.toDraft_object, choice_of_two (by simp)] at h
      exact .inr (.inl (Except.error.inj h).symm)
  | list values =>
    rw [Json.toDraft_list] at h
    exact .inr (.inr ⟨.list, "string or map", by simp, (Except.error.inj h).symm⟩)
  | _ => exact .inr (.inr ⟨_, "string or map", by simp, (Except.error.inj h).symm⟩)

theorem instantOf_eq_error {raw : String} (h : instantOf raw = .error fault) :
    Instant.parse? raw = none ∧ fault = .badTimestamp (Instant.refusal raw) := by
  unfold instantOf at h
  split at h
  · cases h
  · rename_i hnone
    exact ⟨hnone, (Except.error.inj h).symm⟩

theorem eq_text_of_text_eq_ok {raw : String} (h : text w.toDraft = .ok raw) : w = .text raw := by
  cases w with
  | text s => rw [Except.ok.inj h]
  | list values => rw [Json.toDraft_list] at h; cases h
  | object members => rw [Json.toDraft_object] at h; cases h
  | _ => cases h

theorem eq_text_of_optional_eq_ok {raw : String} (h : optional text w.toDraft = .ok (some raw)) :
    w = .text raw := by
  cases w with
  | text s => rw [Option.some.inj (Except.ok.inj h)]
  | null => cases Except.ok.inj h
  | list values => rw [Json.toDraft_list] at h; cases h
  | object members => rw [Json.toDraft_object] at h; cases h
  | _ => cases h

theorem instant_eq_error (h : instant w.toDraft = .error fault) :
    (∃ found, fault = .wrongType found "a string") ∨
      ∃ raw, w = .text raw ∧ Instant.parse? raw = none ∧
        fault = .badTimestamp (Instant.refusal raw) := by
  unfold instant at h
  cases htext : text w.toDraft with
  | ok raw =>
    rw [htext] at h
    exact .inr ⟨raw, eq_text_of_text_eq_ok htext, instantOf_eq_error h⟩
  | error other =>
    rw [htext] at h
    obtain rfl := Except.error.inj h
    exact .inl (text_eq_error htext)

theorem optionalInstant_eq_error (h : optionalInstant w.toDraft = .error fault) :
    (∃ found, fault = .wrongType found "a string") ∨
      ∃ raw, w = .text raw ∧ Text.isBlankText raw = false ∧ Instant.parse? raw = none ∧
        fault = .badTimestamp (Instant.refusal raw) := by
  unfold optionalInstant at h
  cases htext : optional text w.toDraft with
  | error other =>
    rw [htext] at h
    obtain rfl := Except.error.inj h
    exact .inl (text_eq_error (optional_eq_error htext))
  | ok found =>
    rw [htext] at h
    cases found with
    | none => cases h
    | some raw =>
      have hw : w = .text raw := eq_text_of_optional_eq_ok htext
      dsimp only at h
      split at h
      · cases h
      · rename_i hblank
        obtain ⟨hraw, hfault⟩ := instantOf_eq_error (map_eq_error_iff.mp h)
        exact .inr ⟨raw, hw, by simpa using hblank, hraw, hfault⟩

end

end Decode

end RunLedger
