/-
  Proofs/Event/Sorting.lean --- what a refusal is sorted as.

  WHAT THIS FILE IS FOR.  The code and the field of a refusal are read off its
  sentence: the first of four phrases that the sentence holds decides.  But a
  sentence also quotes the caller, and a quoted text that holds one of the phrases
  can pass for another refusal.  A refusal is sorted as what it is exactly if the
  text that it quotes does not: for each fault it is said which texts those are.
  Sorted as what it is, it tells the truth about the document.
-/
import RunLedger.Proofs.Event.Phrases
import RunLedger.Proofs.Event.Refusal
import RunLedger.Proofs.Json.Number

set_option autoImplicit false

namespace RunLedger

open RunLedger.Decode
open RunLedger.Text
open RunLedger.Time (Instant)

namespace Problem

/-! ## What a refusal is -/

/-- The problem that a fault is: its field and its code are those of the fault. -/
def told (fault : Fault) : Problem :=
  match fault with
  | .missingField name => ⟨name, fault.message, codeOfMissing name⟩
  | .unknownField name _ => ⟨name, fault.message, .unknownField⟩
  | .unknownName .. => ⟨"", fault.message, .invalidEnumValue⟩
  | .badTimestamp _ => ⟨"timestamp", fault.message, .invalidTimestamp⟩
  | _ => ⟨"", fault.message, .schemaValidation⟩

/-- How a text is shown, without the quotes around it. -/
def shown (s : String) : List Char := s.toList.flatMap showChar

/-- The text that a fault quotes does not pass for another fault. -/
def IsPlain : Fault → Prop
  | .wrongType (.text s) _ =>
    NamesNoField (shown s) ∧ hasPhrase variantPhrase (shown s) = false ∧
      hasPhrase timestampPhrase (shown s) = false
  | .unknownField name _ =>
    '\x60' ∉ name.toList ∧ hasPhrase unknownPhrase name.toList = false ∧
      namedAfter? missingPhrase (name.toList ++ ticks) = none
  | .unknownName name _ => NamesNoField (name.toList ++ ticks)
  | .badTimestamp refusal =>
    ∀ raw, refusal = Instant.refusal raw →
      NamesNoField raw.toList ∧ hasPhrase variantPhrase raw.toList = false
  | _ => True

/-! ## Sentences without a quoted text -/

/-- What refusals that name no field say around what they quote. -/
def wordings : List String :=
  ["invalid type: string ", "invalid type: integer ", "invalid type: floating point ",
    "invalid value: integer ", ", expected f64", " expected fewer elements in array",
    Fault.notSingleKey.message] ++
  [Json.Found.null, .bool true, .bool false, .list, .object].map
    (fun found => "invalid type: " ++ found.describe) ++
  Event.wantedKinds.map (fun wanted => " expected " ++ wanted) ++
  Event.partForms.map fun part => " expected " ++ part.title ++ " with " ++
    toString part.slots.length ++ (if part.slots.length = 1 then " element" else " elements")

theorem quiet_wordings : ∀ text ∈ wordings, Quiet text.toList := by
  decide +kernel

theorem quiet_wanted {wanted : String} (h : wanted ∈ Event.wantedKinds) :
    Quiet (" expected " ++ wanted).toList :=
  quiet_wordings _ (List.mem_append_left _ (List.mem_append_right _ (List.mem_map_of_mem h)))

theorem tick_not_mem_wanted : ∀ wanted ∈ Event.wantedKinds,
    '\x60' ∉ (", expected " ++ wanted).toList := by
  decide +kernel

/-- The fields of records and the names that can be due are words. -/
theorem isWord_names : ∀ names ∈ Event.dueNames ++ Event.partForms.map Form.names,
    names ≠ [] ∧ ∀ name ∈ names, IsWord name := by
  decide +kernel

theorem isWord_field {part : Form} {name : String} (hpart : part ∈ Event.partForms)
    (hname : name ∈ part.names) : IsWord name :=
  (isWord_names _ (List.mem_append_right _ (List.mem_map_of_mem hpart))).2 name hname

theorem quiet_duplicate {part : Form} {name : String} (hpart : part ∈ Event.partForms)
    (hname : name ∈ part.names) : Quiet (Fault.duplicateField name).message.toList := by
  have hlist : (Fault.duplicateField name).message.toList =
      "duplicate field ".toList ++ ((ticked name).toList ++ []) := by
    show ("duplicate field " ++ ticked name).toList = _
    simp
  rw [hlist, quiet_ticked]
  exact ⟨by decide, (isWord_field hpart hname).quiet, by decide⟩

theorem named_missing {part : Form} {name : String} (hpart : part ∈ Event.partForms)
    (hname : name ∈ part.names) :
    namedAfter? missingPhrase (Fault.missingField name).message.toList = some name.toList := by
  have hword := isWord_field hpart hname
  have hlist : (Fault.missingField name).message.toList =
      missingPhrase ++ '\x60' :: (name.toList ++ '\x60' :: []) := by
    have hphrase : missingPhrase = "missing field ".toList := rfl
    show ("missing field " ++ ticked name).toList = _
    simp [ticked, hphrase]
  rw [hlist, namedAfter?_leading_iff (by decide) (by decide) (by decide)]
  exact ⟨hword.2, hword.quiet _ (by simp [phrases])⟩

theorem quiet_number (n : Json.Number) : Quiet n.chars :=
  quiet_of_letters (fun hs => absurd (Json.isNumberChar_of_mem _ hs) (by decide))
    fun hk => absurd (Json.isNumberChar_of_mem _ hk) (by decide)

theorem quiet_describe {found : Json.Found} (h : ∀ s, found ≠ .text s) :
    Quiet ("invalid type: " ++ found.describe).toList := by
  have hnumber (opening : String) (n : Json.Number) (hopening : opening ∈ wordings) :
      Quiet (opening ++ "`" ++ String.ofList n.chars ++ "`").toList := by
    have hlist : (opening ++ "`" ++ String.ofList n.chars ++ "`").toList =
        opening.toList ++ '\x60' :: (n.chars ++ '\x60' :: []) := by simp
    rw [hlist, quiet_append_mark (by simp [marks]), quiet_append_mark (by simp [marks])]
    exact ⟨quiet_wordings _ hopening, quiet_number n, by decide⟩
  cases found with
  | number n =>
    cases n with
    | whole n => exact hnumber "invalid type: integer " (.whole n) (by simp [wordings])
    | real x => exact hnumber "invalid type: floating point " (.real x) (by simp [wordings])
  | text s => exact absurd rfl (h s)
  | bool b => cases b <;> exact quiet_wordings _ (by simp [wordings])
  | _ => exact quiet_wordings _ (by simp [wordings])

theorem quiet_range (n : Int) : Quiet (Fault.outOfRange n "f64").message.toList := by
  have hlist : (Fault.outOfRange n "f64").message.toList = "invalid value: integer ".toList ++
      '\x60' :: ((Json.Number.whole n).chars ++ '\x60' :: ", expected f64".toList) := by
    show ("invalid value: integer " ++ ticked (String.ofList (Json.intChars n)) ++ ", expected " ++
      "f64").toList = _
    simp [ticked, Json.Number.chars]
  rw [hlist, quiet_append_mark (by simp [marks]), quiet_append_mark (by simp [marks])]
  exact ⟨quiet_wordings _ (by simp [wordings]), quiet_number _,
    quiet_wordings _ (by simp [wordings])⟩

theorem quiet_length (n : Nat) : Quiet ("invalid length " ++ toString n).toList := by
  have hdigits : ∀ c ∈ (toString n).toList, c.isDigit = true := by
    intro c hc
    rw [Nat.toString_eq_ofList_toDigits, String.toList_ofList] at hc
    exact Nat.isDigit_of_mem_toDigits (by decide) (by decide) hc
  have hletter (c : Char) (hc : c.isDigit = false) (hopening : c ∉ "invalid length ".toList) :
      c ∉ ("invalid length " ++ toString n).toList := by
    rw [String.toList_append, List.mem_append, not_or]
    exact ⟨hopening, fun hmem => by rw [hdigits c hmem] at hc; cases hc⟩
  exact quiet_of_letters (hletter 's' (by decide) (by decide)) (hletter 'k' (by decide) (by decide))

theorem quiet_tooShort {part : Form} (h : part ∈ Event.partForms) (number : Nat) :
    Quiet (Fault.tooFewItems number part.title part.slots.length).message.toList := by
  have hlist : (Fault.tooFewItems number part.title part.slots.length).message.toList =
      ("invalid length " ++ toString number).toList ++ ',' ::
        (" expected " ++ part.title ++ " with " ++ toString part.slots.length ++
          (if part.slots.length = 1 then " element" else " elements")).toList := by
    show ("invalid length " ++ toString number ++ ", expected " ++ part.title ++ " with " ++
      toString part.slots.length ++
        (if part.slots.length = 1 then " element" else " elements")).toList = _
    simp
  rw [hlist, quiet_append_mark (by simp [marks])]
  exact ⟨quiet_length number,
    quiet_wordings _ (List.mem_append_right _ (List.mem_map_of_mem h))⟩

theorem quiet_tooLong (count : Nat) : Quiet (Fault.tooManyItems count).message.toList := by
  have hlist : (Fault.tooManyItems count).message.toList =
      ("invalid length " ++ toString count).toList ++ ',' ::
        " expected fewer elements in array".toList := by
    show ("invalid length " ++ toString count ++ ", expected fewer elements in array").toList = _
    simp
  rw [hlist, quiet_append_mark (by simp [marks])]
  exact ⟨quiet_length count, quiet_wordings _ (by simp [wordings])⟩

/-! ## Sentences around a quoted text -/

theorem message_unknownField (name : String) (known : List String) :
    (Fault.unknownField name known).message.toList =
      unknownPhrase ++ '\x60' :: (name.toList ++ '\x60' ::
        (", " ++ expectedNames known).toList) := by
  have hphrase : unknownPhrase = "unknown field ".toList := rfl
  show ("unknown field " ++ ticked name ++ ", " ++ expectedNames known).toList = _
  simp [ticked, hphrase]

theorem message_unknownName (name : String) (known : List String) :
    (Fault.unknownName name known).message.toList =
      "unknown variant ".toList ++ '\x60' :: (name.toList ++ '\x60' ::
        (", " ++ expectedNames known).toList) := by
  show ("unknown variant " ++ ticked name ++ ", " ++ expectedNames known).toList = _
  simp [ticked]

theorem message_badTimestamp (raw : String) :
    (Fault.badTimestamp (Instant.refusal raw)).message.toList =
      (timestampPhrase ++ [':', ' ']) ++ '\x27' :: (raw.toList ++ '\x27' :: []) := by
  have hopening : "timestamp must be RFC 3339 and include timezone information: '".toList =
      timestampPhrase ++ [':', ' ', '\x27'] := by decide +kernel
  show ("timestamp must be RFC 3339 and include timezone information: '" ++ raw ++ "'").toList = _
  rw [String.toList_append, String.toList_append, hopening]
  simp only [List.append_assoc, List.cons_append, List.nil_append]
  rfl

theorem message_wrongType (found : Json.Found) (wanted : String) :
    (Fault.wrongType found wanted).message.toList =
      ("invalid type: " ++ found.describe).toList ++ ',' :: (" expected " ++ wanted).toList := by
  show ("invalid type: " ++ found.describe ++ ", expected " ++ wanted).toList = _
  simp

theorem message_wrongType_text (s : String) (wanted : String) :
    (Fault.wrongType (.text s) wanted).message.toList =
      "invalid type: string ".toList ++ '"' :: (shown s ++ '"' ::
        (", expected " ++ wanted).toList) := by
  show ("invalid type: " ++ ("string " ++ showText s) ++ ", expected " ++ wanted).toList = _
  simp [showText, shown]

/-! ## When a refusal is sorted as what it is -/

theorem ofFault_wrongType_text_iff {s wanted : String} (hwanted : wanted ∈ Event.wantedKinds) :
    ofFault (.wrongType (.text s) wanted) = told (.wrongType (.text s) wanted) ↔
      IsPlain (.wrongType (.text s) wanted) := by
  have htick := tick_not_mem_wanted wanted hwanted
  have hquiet : Quiet (", expected " ++ wanted).toList := by
    have hcomma : (", expected " ++ wanted).toList =
        [] ++ ',' :: (" expected " ++ wanted).toList := by simp
    rw [hcomma]
    exact (quiet_append_mark (by simp [marks])).mpr ⟨by decide, quiet_wanted hwanted⟩
  have hbefore : Quiet "invalid type: string ".toList := quiet_wordings _ (by simp [wordings])
  show ofMessage _ = ⟨"", _, .schemaValidation⟩ ↔ _
  rw [ofMessage_eq_schema_iff, message_wrongType_text,
    namesNoField_quoted (by simp [marks]) (by decide) (hbefore _ (by simp [phrases]))
      (hbefore _ (by simp [phrases])) hquiet htick,
    hasPhrase_quoted (by simp [phrases]) (by simp [marks]) (hbefore _ (by simp [phrases])) hquiet,
    hasPhrase_quoted (by simp [phrases]) (by simp [marks]) (hbefore _ (by simp [phrases])) hquiet]
  rfl

theorem refusal_injective {raw other : String} (h : Instant.refusal raw = Instant.refusal other) :
    raw = other := by
  have hmessages := (message_badTimestamp raw).symm.trans
    ((congrArg (fun refusal => (Fault.badTimestamp refusal).message.toList) h).trans
      (message_badTimestamp other))
  have hquoted := (List.cons.inj (List.append_cancel_left hmessages)).2
  exact String.toList_inj.mp (List.append_cancel_right hquoted)

theorem ofFault_badTimestamp_iff (raw : String) :
    ofFault (.badTimestamp (Instant.refusal raw)) = told (.badTimestamp (Instant.refusal raw)) ↔
      IsPlain (.badTimestamp (Instant.refusal raw)) := by
  -- The fault keeps only the sentence; the text that it quotes is found in it again.
  have hplain : IsPlain (.badTimestamp (Instant.refusal raw)) ↔
      NamesNoField raw.toList ∧ hasPhrase variantPhrase raw.toList = false := by
    constructor
    · exact fun h => h raw rfl
    · rintro h other hother
      rwa [← refusal_injective hother]
  have htimestamp : hasPhrase timestampPhrase
      (Fault.badTimestamp (Instant.refusal raw)).message.toList = true := by
    rw [message_badTimestamp, List.append_assoc, hasPhrase, cutAt?_self (by decide)]
    rfl
  show ofMessage _ = ⟨"timestamp", _, .invalidTimestamp⟩ ↔ _
  rw [ofMessage_eq_timestamp_iff, htimestamp, hplain, message_badTimestamp,
    namesNoField_quoted (by simp [marks]) (by decide) (by decide +kernel) (by decide +kernel)
      (by decide) (by decide),
    hasPhrase_quoted (by simp [phrases]) (by simp [marks]) (by decide +kernel) (by decide)]
  simp

theorem ofFault_unknownField_iff {name : String} {part : Form} (hpart : part ∈ Event.partForms) :
    ofFault (.unknownField name part.names) = told (.unknownField name part.names) ↔
      IsPlain (.unknownField name part.names) := by
  obtain ⟨hnames, hwords⟩ := isWord_names _ (List.mem_append_right _ (List.mem_map_of_mem hpart))
  have hbehind : Quiet (", " ++ expectedNames part.names).toList := quiet_expectedNames hwords
  have htick := tick_mem_expectedNames hnames
  have hmissing : namedAfter? missingPhrase (Fault.unknownField name part.names).message.toList =
      none ↔ namedAfter? missingPhrase (name.toList ++ ticks) = none := by
    rw [message_unknownField]
    exact namedAfter?_ticked_eq_none_iff (by decide) (by decide) (by decide)
      (hbehind _ (by simp [phrases])) htick
  have hunknown : namedAfter? unknownPhrase (Fault.unknownField name part.names).message.toList =
      some name.toList ↔ '\x60' ∉ name.toList ∧ cutAt? unknownPhrase name.toList = none := by
    rw [message_unknownField]
    exact namedAfter?_leading_iff (by decide) (by decide) (hbehind _ (by simp [phrases]))
  show ofMessage _ = ⟨name, _, .unknownField⟩ ↔ _
  rw [ofMessage_eq_unknown_iff, hmissing, hunknown, ← hasPhrase_iff, and_comm, and_assoc]
  rfl

theorem ofFault_unknownName_iff {name : String} {names : List String}
    (hnames : names ∈ Event.dueNames) :
    ofFault (.unknownName name names) = told (.unknownName name names) ↔
      IsPlain (.unknownName name names) := by
  obtain ⟨hsome, hwords⟩ := isWord_names names (List.mem_append_left _ hnames)
  have hbehind : Quiet (", " ++ expectedNames names).toList := quiet_expectedNames hwords
  have htick := tick_mem_expectedNames hsome
  have hvariant : hasPhrase variantPhrase (Fault.unknownName name names).message.toList = true := by
    have hopening : "unknown variant ".toList = variantPhrase ++ [' '] := by decide
    rw [message_unknownName, hopening, List.append_assoc, hasPhrase, cutAt?_self (by decide)]
    rfl
  show ofMessage _ = ⟨"", _, .invalidEnumValue⟩ ↔ _
  rw [ofMessage_eq_enum_iff, hvariant, message_unknownName,
    namesNoField_ticked (by decide +kernel) (by decide +kernel) hbehind htick]
  simp [IsPlain]

/-- A refusal is sorted as what it is exactly if the text that it quotes passes for nothing else. -/
theorem ofFault_eq_told_iff {v : Json} {fault : Fault} (h : Event.Refuses v fault) :
    ofFault fault = told fault ↔ IsPlain fault := by
  have hquiet {fault : Fault} (hfault : Quiet fault.message.toList) :
      ofFault fault = ⟨"", fault.message, .schemaValidation⟩ := ofMessage_of_quiet hfault
  cases h with
  | missing hpart hslot _ _ =>
    have hnamed := named_missing hpart.mem_partForms (List.mem_map_of_mem hslot)
    refine iff_of_true ?_ trivial
    rw [ofFault, ofMessage_of_missing hnamed, String.ofList_toList]
    rfl
  | unknown hpart _ _ => exact ofFault_unknownField_iff hpart.mem_partForms
  | name hdue _ _ => exact ofFault_unknownName_iff hdue.mem_dueNames
  | timestamp _ _ => exact ofFault_badTimestamp_iff _
  | resolvedAt _ _ _ _ => exact ofFault_badTimestamp_iff _
  | @kind found wanted hwanted =>
    -- Only a text is quoted as the caller wrote it; of other values the kind is told.
    by_cases htext : ∃ s, found = .text s
    · obtain ⟨s, rfl⟩ := htext
      exact ofFault_wrongType_text_iff hwanted
    · have hplain : IsPlain (.wrongType found wanted) := by
        cases found with
        | text s => exact absurd ⟨s, rfl⟩ htext
        | _ => trivial
      refine iff_of_true (hquiet ?_) hplain
      rw [message_wrongType, quiet_append_mark (by simp [marks])]
      exact ⟨quiet_describe fun s hs => htext ⟨s, hs⟩, quiet_wanted hwanted⟩
  | range n => exact iff_of_true (hquiet (quiet_range n)) trivial
  | keys => exact iff_of_true (hquiet (quiet_wordings _ (by simp [wordings]))) trivial
  | repeated hpart hname => exact iff_of_true (hquiet (quiet_duplicate hpart hname)) trivial
  | tooShort number hpart => exact iff_of_true (hquiet (quiet_tooShort hpart number)) trivial
  | tooLong count => exact iff_of_true (hquiet (quiet_tooLong count)) trivial

/-! ## What a refusal tells -/

/-- The problem tells the truth about the document `v`, whose decoding ended with the fault. -/
structure IsTrueOf (problem : Problem) (v : Json) (fault : Fault) : Prop where
  /-- a code for a missing field: the field is missing from an object that must have it, and that is
  why decoding ended -/
  missing : problem.code.isMissing = true → fault = .missingField problem.path ∧
    ∃ part members, Event.HasPart v part (.object members) ∧
      (∃ slot ∈ part.slots, slot.name = problem.path ∧ slot.presence = .required) ∧
      problem.path ∉ members.map Prod.fst
  /-- the code for an unknown field: an object has that key, and it is none of its fields -/
  unknown : problem.code = .unknownField → ∃ part members,
    Event.HasPart v part (.object members) ∧ problem.path ∈ members.map Prod.fst ∧
      problem.path ∉ part.names
  /-- the code for a name: a name that is not due is written where one is due -/
  name : problem.code = .invalidEnumValue → ∃ names w name, Event.DueName v names w ∧
    w.Writes name ∧ name ∉ names
  /-- the code for a timestamp: the time of the event or that of its approval's answer is none -/
  timestamp : problem.code = .invalidTimestamp → problem.path = "timestamp" ∧
    ∃ raw, Instant.parse? raw = none ∧
      ((Event.form .value).HasField v "timestamp" (.text raw) ∨
        ∃ part, Event.HasPart v (Approval.form .value) part ∧
          (Approval.form .value).HasField part "resolved_at" (.text raw))

/-- A problem with the general code claims nothing about the document. -/
theorem IsTrueOf.of_schema {problem : Problem} (v : Json) (fault : Fault)
    (h : problem.code = .schemaValidation) : problem.IsTrueOf v fault := by
  constructor <;> (intro hcode; rw [h] at hcode; cases hcode)

theorem told_isTrueOf {v : Json} {fault : Fault} (h : Event.Refuses v fault) :
    (told fault).IsTrueOf v fault := by
  cases h with
  | @missing part members slot hpart hslot hrequired hmissing =>
    have hcode : (codeOfMissing slot.name).isMissing = true := isMissing_codeOfMissing slot.name
    refine ⟨fun _ => ⟨rfl, part, members, hpart, ⟨slot, hslot, rfl, hrequired⟩, hmissing⟩, ?_, ?_, ?_⟩
    all_goals
      intro hother
      have hsame : codeOfMissing slot.name = _ := hother
      rw [hsame] at hcode
      cases hcode
  | unknown hpart hkey hunknown =>
    exact ⟨fun hcode => (nomatch hcode), fun _ => ⟨_, _, hpart, hkey, hunknown⟩,
      fun hcode => (nomatch hcode), fun hcode => (nomatch hcode)⟩
  | name hdue hwrites hunknown =>
    exact ⟨fun hcode => (nomatch hcode), fun hcode => (nomatch hcode),
      fun _ => ⟨_, _, _, hdue, hwrites, hunknown⟩, fun hcode => (nomatch hcode)⟩
  | timestamp hfield hraw =>
    exact ⟨fun hcode => (nomatch hcode), fun hcode => (nomatch hcode), fun hcode => (nomatch hcode),
      fun _ => ⟨rfl, _, hraw, .inl hfield⟩⟩
  | resolvedAt hpart hfield _ hraw =>
    exact ⟨fun hcode => (nomatch hcode), fun hcode => (nomatch hcode), fun hcode => (nomatch hcode),
      fun _ => ⟨rfl, _, hraw, .inr ⟨_, hpart, hfield⟩⟩⟩
  | _ => exact .of_schema v _ rfl

/-- A document that cannot be decoded is refused with one problem.  What the fault is, as a problem,
is true of the document; and the problem that is told is that one exactly if the text that the fault
quotes passes for nothing else. -/
theorem refusal_is_told_as_it_is {v : Json} {fault : Fault} (h : Event.ofJson? v = .error fault) :
    Event.ofSubmission? v = .error [ofFault fault] ∧ (told fault).IsTrueOf v fault ∧
      (ofFault fault = told fault ↔ IsPlain fault) := by
  have hrefuses := Event.Refuses.of_ofJson? h
  refine ⟨?_, told_isTrueOf hrefuses, ofFault_eq_told_iff hrefuses⟩
  rw [Event.ofSubmission?, h]

/-- Members that are in order stay where they are. -/
theorem toDraft_of_pairwise {members : List (String × Json)}
    (h : members.Pairwise fun a b => Json.keyLe a b = true) :
    (Json.object members).toDraft = .object (members.map fun m => (m.1, m.2.toDraft)) .closed := by
  rw [Json.toDraft_object, List.mergeSort_of_pairwise h]

/-- A document with a key in its approval that approvals do not have. -/
def notedDocument : Json := .object [("approval", .object [("note", .text "later")])]

/-- The fault that its decoding ends with. -/
def notedFault : Fault := .unknownField "note" (Approval.form .value).names

theorem note_is_told_as_it_is :
    Event.ofJson? notedDocument = .error notedFault ∧
      Event.ofSubmission? notedDocument = .error [⟨"note", notedFault.message, .unknownField⟩] ∧
      (told notedFault).IsTrueOf notedDocument notedFault := by
  have hdecode : Event.ofJson? notedDocument = .error notedFault := by
    rw [Event.ofJson?, notedDocument, toDraft_of_pairwise (by decide), List.map_singleton,
      toDraft_of_pairwise (by decide)]
    decide +kernel
  obtain ⟨hsubmission, htrue, hplain⟩ := refusal_is_told_as_it_is hdecode
  have hfault : IsPlain notedFault := by
    refine ⟨by decide, by decide, by decide⟩
  rw [hplain.mpr hfault] at hsubmission
  exact ⟨hdecode, hsubmission, htrue⟩

/-! ## Quoted texts that pass for something else -/

/-- A document with an identifier, and with a text in place of a truth value. -/
def borrowingDocument : Json :=
  .object [("id", .text "a"), ("requires_approval", .text "missing field `id`")]

/-- A document with a key that has a backtick. -/
def tickedDocument : Json := .object [("a`b", .null)]

/-- A document with a timestamp, and with an answer to its approval that has none. -/
def datedDocument : Json :=
  .object [("approval", .object [("resolved_at", .text "yesterday")]),
    ("timestamp", .text "2026-02-16T13:00:00Z")]

/-- The identifier is told to be missing because the text says so; the key that is told is the part
before the backtick; and the timestamp is told to be none though it is the answer's that is none. -/
theorem quoted_texts_pass_for_other_refusals :
    (Event.ofSubmission? borrowingDocument = .error [⟨"id",
        "invalid type: string \"missing field `id`\", expected a boolean", .missingEventId⟩] ∧
      borrowingDocument.member? "id" = some (.text "a")) ∧
    (Event.ofSubmission? tickedDocument = .error [⟨"a",
        (Fault.unknownField "a`b" (Event.form .value).names).message, .unknownField⟩] ∧
      tickedDocument.member? "a" = none) ∧
    (Event.ofSubmission? datedDocument = .error [⟨"timestamp", Instant.refusal "yesterday",
        .invalidTimestamp⟩] ∧
      datedDocument.member? "timestamp" = some (.text "2026-02-16T13:00:00Z") ∧
      (Instant.parse? "2026-02-16T13:00:00Z").isSome) := by
  have hborrowing : Event.ofJson? borrowingDocument =
      .error (.wrongType (.text "missing field `id`") "a boolean") := by
    rw [Event.ofJson?, borrowingDocument, toDraft_of_pairwise (by decide)]
    decide +kernel
  have hticked : Event.ofJson? tickedDocument =
      .error (.unknownField "a`b" (Event.form .value).names) := by
    rw [Event.ofJson?, tickedDocument, toDraft_of_pairwise (by decide)]
    decide +kernel
  have hdated : Event.ofJson? datedDocument =
      .error (.badTimestamp (Instant.refusal "yesterday")) := by
    rw [Event.ofJson?, datedDocument, toDraft_of_pairwise (by decide)]
    simp only [List.map_cons, List.map_nil]
    rw [toDraft_of_pairwise (by decide)]
    decide +kernel
  refine ⟨⟨?_, rfl⟩, ⟨?_, rfl⟩, ?_, rfl, by decide +kernel⟩
  · rw [Event.ofSubmission?, hborrowing]
    decide +kernel
  · rw [Event.ofSubmission?, hticked]
    decide +kernel
  · rw [Event.ofSubmission?, hdated]
    decide +kernel

end Problem

end RunLedger
