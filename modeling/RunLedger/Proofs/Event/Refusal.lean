/-
  Proofs/Event/Refusal.lean --- why a document is no event.

  WHAT THIS FILE IS FOR.  The document of an event has parts: the event itself, its
  approval, the pieces of its evidence and its origin.  A document that cannot be
  decoded has a part with something wrong in it, and the fault that decoding ends
  with names it: a field that is missing there, a key that is unknown there, a name
  that is not due, a time that is no timestamp.
-/
import RunLedger.Event.Decode
import RunLedger.Proofs.Decode.Cause
import RunLedger.Proofs.Decode.Opening

set_option autoImplicit false

namespace RunLedger

open RunLedger.Decode
open RunLedger.Time (Instant)

/-! ## Decoding and opening -/

section

variable {origin : Origin} {draft : Json.Draft} {fault : Fault}

/-- Decoding an origin fails while it is opened. -/
theorem WorkflowStep.openDraft_of_decode (h : decode origin draft = .error fault) :
    form.openDraft origin draft = .error fault := by
  refine Form.openDraft_of_bind (by simp [form, Form.names, Slot.of]) (fun fields hopens => ?_) h
  refine exists_ok_bind (hopens.exists_get (by simp [form])) fun workflow => ?_
  refine exists_ok_bind (hopens.exists_get (by simp [form])) fun step => ?_
  exact ⟨_, rfl⟩

/-- Decoding a piece of evidence fails while it is opened. -/
theorem Evidence.openDraft_of_decode (h : decode origin draft = .error fault) :
    (form origin).openDraft origin draft = .error fault := by
  refine Form.openDraft_of_bind (by simp [form, Form.names, Slot.of]) (fun fields hopens => ?_) h
  refine exists_ok_bind (hopens.exists_get (by simp [form])) fun kind => ?_
  refine exists_ok_bind (hopens.exists_get (by simp [form])) fun label => ?_
  refine exists_ok_bind (hopens.exists_get (by simp [form])) fun reference => ?_
  exact ⟨_, rfl⟩

/-- Decoding an approval fails while it is opened. -/
theorem Approval.openDraft_of_decode (h : decode origin draft = .error fault) :
    (form origin).openDraft origin draft = .error fault := by
  refine Form.openDraft_of_bind (by simp [form, Form.names, Slot.of]) (fun fields hopens => ?_) h
  refine exists_ok_bind (hopens.exists_get (by simp [form])) fun status => ?_
  refine exists_ok_bind (hopens.exists_getD (by simp [form]) none) fun decisionId => ?_
  refine exists_ok_bind (hopens.exists_getD (by simp [form]) none) fun requestedBy => ?_
  refine exists_ok_bind (hopens.exists_getD (by simp [form]) none) fun resolvedBy => ?_
  refine exists_ok_bind (hopens.exists_getD (by simp [form]) none) fun resolvedAt => ?_
  refine exists_ok_bind (hopens.exists_getD (by simp [form]) none) fun reason => ?_
  exact ⟨_, rfl⟩

/-- Decoding an event fails while it is opened. -/
theorem Event.openDraft_of_decode (h : decode origin draft = .error fault) :
    (form origin).openDraft origin draft = .error fault := by
  refine Form.openDraft_of_bind (by simp [form, Form.names, Slot.of]) (fun fields hopens => ?_) h
  refine exists_ok_bind (hopens.exists_get (by simp [form])) fun id => ?_
  refine exists_ok_bind (hopens.exists_get (by simp [form])) fun runId => ?_
  refine exists_ok_bind (hopens.exists_get (by simp [form])) fun timestamp => ?_
  refine exists_ok_bind (hopens.exists_get (by simp [form])) fun kind => ?_
  refine exists_ok_bind (hopens.exists_get (by simp [form])) fun actor => ?_
  refine exists_ok_bind (hopens.exists_get (by simp [form])) fun title => ?_
  refine exists_ok_bind (hopens.exists_get (by simp [form])) fun details => ?_
  refine exists_ok_bind (hopens.exists_getD (by simp [form]) none) fun confidence => ?_
  refine exists_ok_bind (hopens.exists_getD (by simp [form]) none) fun riskLevel => ?_
  refine exists_ok_bind (hopens.exists_getD (by simp [form]) false) fun requiresApproval => ?_
  refine exists_ok_bind (hopens.exists_get (by simp [form])) fun approval => ?_
  refine exists_ok_bind (hopens.exists_getD (by simp [form]) []) fun evidence => ?_
  refine exists_ok_bind (hopens.exists_getD (by simp [form]) none) fun origin => ?_
  exact ⟨_, rfl⟩

end

/-! ## Parts of a document -/

namespace Event

/-- The records that the document of an event consists of. -/
def partForms : List Form :=
  [form .value, Approval.form .value, Evidence.form .value, WorkflowStep.form]

/-- The value `w` is a part of the document `v`, and should be a record with the fields of the
form. -/
inductive HasPart (v : Json) : Form → Json → Prop where
  /-- the document itself -/
  | event : HasPart v (form .value) v
  /-- its approval -/
  | approval {w : Json} (h : (form .value).HasField v "approval" w) :
    HasPart v (Approval.form .value) w
  /-- a piece of its evidence -/
  | evidence {pieces : List Json} {w : Json}
    (h : (form .value).HasField v "evidence" (.list pieces)) (hw : w ∈ pieces) :
    HasPart v (Evidence.form .value) w
  /-- its origin -/
  | origin {w : Json} (h : (form .value).HasField v "meta" w) : HasPart v WorkflowStep.form w

theorem HasPart.mem_partForms {v w : Json} {part : Form} (h : HasPart v part w) :
    part ∈ partForms := by
  cases h <;> simp [partForms]

/-- The value `w` stands in the document `v` where one of the names is due. -/
inductive DueName (v : Json) : List String → Json → Prop where
  | kind {w : Json} (h : (form .value).HasField v "type" w) :
    DueName v (EventKind.all.map EventKind.name) w
  | actor {w : Json} (h : (form .value).HasField v "actor" w) :
    DueName v (Actor.all.map Actor.name) w
  | riskLevel {w : Json} (h : (form .value).HasField v "risk_level" w) :
    DueName v (RiskLevel.all.map RiskLevel.name) w
  | status {part w : Json} (hpart : HasPart v (Approval.form .value) part)
    (h : (Approval.form .value).HasField part "status" w) :
    DueName v (ApprovalStatus.all.map ApprovalStatus.name) w
  | evidenceKind {part w : Json} (hpart : HasPart v (Evidence.form .value) part)
    (h : (Evidence.form .value).HasField part "kind" w) :
    DueName v (EvidenceKind.all.map EvidenceKind.name) w

/-- The lists of names that are due somewhere. -/
def dueNames : List (List String) :=
  [EventKind.all.map EventKind.name, Actor.all.map Actor.name, RiskLevel.all.map RiskLevel.name,
    ApprovalStatus.all.map ApprovalStatus.name, EvidenceKind.all.map EvidenceKind.name]

theorem DueName.mem_dueNames {v w : Json} {names : List String} (h : DueName v names w) :
    names ∈ dueNames := by
  cases h <;> simp [dueNames]

/-- What refusals say is due where something else stands. -/
def wantedKinds : List String :=
  ["a string", "a boolean", "f64", "a sequence", "unit", "string or map"] ++
    partForms.map Form.title

/-- Why the document `v` is refused. -/
inductive Refuses (v : Json) : Fault → Prop where
  /-- an object lacks a field that it must have -/
  | missing {part : Form} {members : List (String × Json)} {slot : Slot}
    (hpart : HasPart v part (.object members)) (hslot : slot ∈ part.slots)
    (hrequired : slot.presence = .required) (hmissing : slot.name ∉ members.map Prod.fst) :
    Refuses v (.missingField slot.name)
  /-- an object has a key that is none of its fields -/
  | unknown {part : Form} {members : List (String × Json)} {key : String}
    (hpart : HasPart v part (.object members)) (hkey : key ∈ members.map Prod.fst)
    (hunknown : key ∉ part.names) : Refuses v (.unknownField key part.names)
  /-- a name is none of those that are due -/
  | name {names : List String} {w : Json} {name : String} (hdue : DueName v names w)
    (hwrites : w.Writes name) (hunknown : name ∉ names) : Refuses v (.unknownName name names)
  /-- the time of the event is no timestamp -/
  | timestamp {raw : String} (h : (form .value).HasField v "timestamp" (.text raw))
    (hraw : Instant.parse? raw = none) : Refuses v (.badTimestamp (Instant.refusal raw))
  /-- the time of the approval's answer is no timestamp -/
  | resolvedAt {part : Json} {raw : String} (hpart : HasPart v (Approval.form .value) part)
    (h : (Approval.form .value).HasField part "resolved_at" (.text raw))
    (hblank : Text.isBlankText raw = false) (hraw : Instant.parse? raw = none) :
    Refuses v (.badTimestamp (Instant.refusal raw))
  /-- something of another kind stands in the place of a value -/
  | kind (found : Json.Found) {wanted : String} (hwanted : wanted ∈ wantedKinds) :
    Refuses v (.wrongType found wanted)
  /-- a confidence is out of range -/
  | range (n : Int) : Refuses v (.outOfRange n "f64")
  /-- an object in the place of a name has not exactly one key -/
  | keys : Refuses v .notSingleKey
  /-- a field stands there twice -/
  | repeated {part : Form} {name : String} (hpart : part ∈ partForms) (hname : name ∈ part.names) :
    Refuses v (.duplicateField name)
  /-- a list has too few items for a record -/
  | tooShort {part : Form} (number : Nat) (hpart : part ∈ partForms) :
    Refuses v (.tooFewItems number part.title part.slots.length)
  /-- a list has too many items for a record -/
  | tooLong (count : Nat) : Refuses v (.tooManyItems count)

namespace Refuses

variable {v w : Json} {fault : Fault} {part : Form}

/-- A part that does not open refuses the document, if its fields do. -/
theorem of_stops (hpart : HasPart v part w) (h : part.Stops w fault)
    (hfields : ∀ slot ∈ part.slots, ∀ x, part.HasField w slot.name x →
      slot.check x.toDraft = .error fault → Refuses v fault) : Refuses v fault := by
  have hmem := hpart.mem_partForms
  cases h with
  | noRecord found =>
    exact .kind found (List.mem_append_right _ (List.mem_map_of_mem hmem))
  | unknown hv hkey hunknown =>
    subst hv
    exact .unknown hpart hkey hunknown
  | repeated hname => exact .repeated hmem hname
  | missing hv hslot hrequired hmissing =>
    subst hv
    exact .missing hpart hslot hrequired hmissing
  | field hslot hfield hcheck => exact hfields _ hslot _ hfield hcheck
  | tooShort number => exact .tooShort number hmem
  | tooLong count => exact .tooLong count

theorem of_text (h : text w.toDraft = .error fault) : Refuses v fault := by
  obtain ⟨found, rfl⟩ := text_eq_error h
  exact .kind found (by simp [wantedKinds])

theorem of_optional_text (h : optional text w.toDraft = .error fault) : Refuses v fault :=
  of_text (optional_eq_error h)

theorem of_choice {α : Type} {all : List α} {written : α → String}
    (hdue : DueName v (all.map written) w)
    (h : choice .value (all.map fun a => (written a, a)) w.toDraft = .error fault) :
    Refuses v fault := by
  have hnames : (all.map fun a => (written a, a)).map Prod.fst = all.map written := by simp
  rcases choice_eq_error h with ⟨name, hwrites, hname, rfl⟩ | rfl | ⟨found, wanted, hwanted, rfl⟩
  · rw [hnames] at hname ⊢
    exact .name hdue hwrites hname
  · exact .keys
  · refine .kind found (List.mem_append_left _ ?_)
    simp only [List.mem_cons, List.not_mem_nil, or_false] at hwanted
    rcases hwanted with rfl | rfl <;> simp

/-! ### Part by part -/

theorem of_workflowStep (hpart : HasPart v WorkflowStep.form w)
    (h : WorkflowStep.decode .value w.toDraft = .error fault) : Refuses v fault := by
  refine of_stops hpart (Form.stops_of_openDraft (WorkflowStep.openDraft_of_decode h)) ?_
  simp only [WorkflowStep.form, List.forall_mem_cons]
  exact ⟨fun x _ hx => of_text (Slot.check_of_eq_error hx),
    fun x _ hx => of_text (Slot.check_of_eq_error hx), by simp⟩

theorem of_evidence (hpart : HasPart v (Evidence.form .value) w)
    (h : Evidence.decode .value w.toDraft = .error fault) : Refuses v fault := by
  refine of_stops hpart (Form.stops_of_openDraft (Evidence.openDraft_of_decode h)) ?_
  simp only [Evidence.form, List.forall_mem_cons]
  exact ⟨fun x hfield hx => of_choice (.evidenceKind hpart hfield) (Slot.check_of_eq_error hx),
    fun x _ hx => of_text (Slot.check_of_eq_error hx),
    fun x _ hx => of_text (Slot.check_of_eq_error hx), by simp⟩

theorem of_approval (hpart : HasPart v (Approval.form .value) w)
    (h : Approval.decode .value w.toDraft = .error fault) : Refuses v fault := by
  refine of_stops hpart (Form.stops_of_openDraft (Approval.openDraft_of_decode h)) ?_
  have hresolvedAt (x : Json) (hfield : (Approval.form .value).HasField w "resolved_at" x)
      (hx : optionalInstant x.toDraft = .error fault) : Refuses v fault := by
    rcases optionalInstant_eq_error hx with ⟨found, rfl⟩ | ⟨raw, rfl, hblank, hraw, rfl⟩
    · exact .kind found (by simp [wantedKinds])
    · exact .resolvedAt hpart hfield hblank hraw
  simp only [Approval.form, List.forall_mem_cons]
  exact ⟨fun x hfield hx => of_choice (.status hpart hfield) (Slot.check_of_eq_error hx),
    fun x _ hx => of_optional_text (Slot.check_of_eq_error hx),
    fun x _ hx => of_optional_text (Slot.check_of_eq_error hx),
    fun x _ hx => of_optional_text (Slot.check_of_eq_error hx),
    fun x hfield hx => hresolvedAt x hfield (Slot.check_of_eq_error hx),
    fun x _ hx => of_optional_text (Slot.check_of_eq_error hx), by simp⟩

/-- A document that cannot be decoded is refused for what the fault says. -/
theorem of_ofJson? (h : ofJson? v = .error fault) : Refuses v fault := by
  refine of_stops .event (Form.stops_of_openDraft (Event.openDraft_of_decode h)) ?_
  have htimestamp (x : Json) (hfield : (form .value).HasField v "timestamp" x)
      (hx : instant x.toDraft = .error fault) : Refuses v fault := by
    rcases instant_eq_error hx with ⟨found, rfl⟩ | ⟨raw, rfl, hraw, rfl⟩
    · exact .kind found (by simp [wantedKinds])
    · exact .timestamp hfield hraw
  have hconfidence (x : Json) (hx : optional real x.toDraft = .error fault) : Refuses v fault := by
    rcases real_eq_error (optional_eq_error hx) with ⟨found, rfl⟩ | ⟨n, rfl⟩
    · exact .kind found (by simp [wantedKinds])
    · exact .range n
  have hrequires (x : Json) (hx : bool x.toDraft = .error fault) : Refuses v fault := by
    obtain ⟨found, rfl⟩ := bool_eq_error hx
    exact .kind found (by simp [wantedKinds])
  have hevidence (x : Json) (hfield : (form .value).HasField v "evidence" x)
      (hx : list (Evidence.decode .value) x.toDraft = .error fault) : Refuses v fault := by
    rcases list_eq_error hx with ⟨found, rfl⟩ | ⟨pieces, rfl, piece, hpiece, herror⟩
    · exact .kind found (by simp [wantedKinds])
    · exact of_evidence (.evidence hfield hpiece) herror
  simp only [form, List.forall_mem_cons]
  exact ⟨fun x _ hx => of_text (Slot.check_of_eq_error hx),
    fun x _ hx => of_text (Slot.check_of_eq_error hx),
    fun x hfield hx => htimestamp x hfield (Slot.check_of_eq_error hx),
    fun x hfield hx => of_choice (.kind hfield) (Slot.check_of_eq_error hx),
    fun x hfield hx => of_choice (.actor hfield) (Slot.check_of_eq_error hx),
    fun x _ hx => of_text (Slot.check_of_eq_error hx),
    fun x _ hx => of_text (Slot.check_of_eq_error hx),
    fun x _ hx => hconfidence x (Slot.check_of_eq_error hx),
    fun x hfield hx => of_choice (.riskLevel hfield) (optional_eq_error (Slot.check_of_eq_error hx)),
    fun x _ hx => hrequires x (Slot.check_of_eq_error hx),
    fun x hfield hx => of_approval (.approval hfield) (Slot.check_of_eq_error hx),
    fun x hfield hx => hevidence x hfield (Slot.check_of_eq_error hx),
    fun x hfield hx =>
      of_workflowStep (.origin hfield) (optional_eq_error (Slot.check_of_eq_error hx)), by simp⟩

end Refuses

end Event

end RunLedger
