/-
  Proofs/Event/Decode.lean --- stored events are read back.

  WHAT THIS FILE IS FOR.  The text that is stored for an event is decoded each time
  the event is read.  It gives the event back if the event is legible: its times
  belong to years with four digits, its leap seconds end a minute, and the text of
  its confidence is read back as the number it was.  A confidence that is read as
  another number and a leap second off the minute that is read as the second after
  it are all that changes, and of an event with a time in another year nothing is
  read.  Whatever is decoded has leap seconds that end a minute only.
-/
import RunLedger.Event.Decode
import RunLedger.Proofs.Decode.Record
import RunLedger.Proofs.Event.Dates
import RunLedger.Proofs.Json.Reader

set_option autoImplicit false

namespace RunLedger

open RunLedger.Decode
open RunLedger.Json (Readable rereadDraft)
open RunLedger.Decimal (Binary64)
open RunLedger.Time (Instant)

/-! ## Plain values -/

section

variable {f : Json.Number → Json.Number}

theorem Json.Readable.optionalText (depth : Nat) (s : Option String) :
    Readable f depth (.optionalText s) := by
  cases s with
  | none => exact .null _
  | some s => exact .text _ s

theorem Json.Readable.optionalInstant (depth : Nat) (t : Option Instant) :
    Readable f depth (.optionalInstant t) := by
  cases t with
  | none => exact .null _
  | some t => exact .text _ _

theorem Json.mapNumbers_optionalText (s : Option String) :
    Json.mapNumbers f (.optionalText s) = .optionalText s := by
  cases s <;> rfl

theorem Json.mapNumbers_optionalInstant (t : Option Instant) :
    Json.mapNumbers f (.optionalInstant t) = .optionalInstant t := by
  cases t <;> rfl

end

namespace Decode

theorem optional_text (s : Option String) :
    optional text (Json.optionalText s).toDraft = .ok s := by
  cases s <;> rfl

theorem optional_object {α : Type} (decode : Decoder α) (members : List (String × Json)) :
    optional decode (Json.object members).toDraft =
      (decode (Json.object members).toDraft).map some := by
  rw [Json.toDraft_object]
  rfl

theorem hasPlainYear_of_instant {t s : Instant} (h : instant (Json.instant t).toDraft = .ok s) :
    t.HasPlainYear := by
  by_contra hyear
  have hread : instantOf t.format = .ok s := h
  rw [instantOf, Instant.parse?_format_eq_none hyear] at hread
  cases hread

theorem optionalInstant_some (t : Instant) :
    optionalInstant (Json.optionalInstant (some t)).toDraft = (instantOf t.format).map some := by
  show (if Text.isBlankText t.format then .ok none else (instantOf t.format).map some) = _
  rw [Instant.isBlankText_format]
  rfl

theorem optionalInstant_format {found : Option Instant} (h : ∀ t ∈ found, t.HasExactText) :
    optionalInstant (Json.optionalInstant found).toDraft = .ok found := by
  cases found with
  | none => rfl
  | some t =>
    rw [optionalInstant_some, instantOf, Instant.parse?_format (h t rfl)]
    rfl

theorem hasPlainYear_of_optionalInstant {found other : Option Instant}
    (h : optionalInstant (Json.optionalInstant found).toDraft = .ok other) :
    ∀ t ∈ found, t.HasPlainYear := by
  rintro t rfl
  by_contra hyear
  rw [optionalInstant_some, instantOf, Instant.parse?_format_eq_none hyear] at h
  cases h

theorem onMinute_of_instantOf {raw : String} {t : Instant} (h : instantOf raw = .ok t) :
    t.OnMinute := by
  unfold instantOf at h
  split at h
  · rename_i hread
    exact Except.ok.inj h ▸ Instant.onMinute_of_parse? hread
  · cases h

theorem onMinute_of_instant {draft : Json.Draft} {t : Instant} (h : instant draft = .ok t) :
    t.OnMinute := by
  unfold instant at h
  split at h
  · exact onMinute_of_instantOf h
  · cases h

theorem onMinute_of_optionalInstant {draft : Json.Draft} {found : Option Instant}
    (h : optionalInstant draft = .ok found) : ∀ t ∈ found, t.OnMinute := by
  unfold optionalInstant at h
  split at h
  · cases h
  · obtain rfl := Except.ok.inj h
    simp
  · split at h
    · obtain rfl := Except.ok.inj h
      simp
    · obtain ⟨t, hread, rfl⟩ := map_eq_ok_iff.mp h
      intro s hs
      exact Option.some.inj hs ▸ onMinute_of_instantOf hread

/-- Items that are read one by one are read as a list. -/
theorem list_map {α : Type} {decode : Decoder α} {document : α → Json} {as : List α}
    (h : ∀ a ∈ as, decode (document a).toDraft = .ok a) :
    list decode (Json.list (as.map document)).toDraft = .ok as := by
  have hitems : items decode ((as.map document).map Json.toDraft) = .ok as := by
    induction as with
    | nil => rfl
    | cons a as ih =>
      simp only [List.map_cons, items, h a List.mem_cons_self,
        ih fun b hb => h b (List.mem_cons_of_mem a hb)]
      rfl
  rw [Json.toDraft_list, list, hitems]
  rfl

end Decode

/-! ## Words -/

theorem EventKind.decode_name (origin : Origin) (kind : EventKind) :
    EventKind.decode origin (Json.text kind.name).toDraft = .ok kind := by
  cases kind <;> rfl

theorem Actor.decode_name (origin : Origin) (actor : Actor) :
    Actor.decode origin (Json.text actor.name).toDraft = .ok actor := by
  cases actor <;> rfl

theorem RiskLevel.decode_name (origin : Origin) (level : Option RiskLevel) :
    optional (RiskLevel.decode origin) (Json.optionalText (level.map RiskLevel.name)).toDraft =
      .ok level := by
  rcases level with _ | level
  · rfl
  · cases level <;> rfl

theorem ApprovalStatus.decode_name (origin : Origin) (status : ApprovalStatus) :
    ApprovalStatus.decode origin (Json.text status.name).toDraft = .ok status := by
  cases status <;> rfl

theorem EvidenceKind.decode_name (origin : Origin) (kind : EvidenceKind) :
    EvidenceKind.decode origin (Json.text kind.name).toDraft = .ok kind := by
  cases kind <;> rfl

/-! ## Parts -/

theorem WorkflowStep.decode_toJson (origin : Origin) (step : WorkflowStep) :
    decode origin step.toJson.toDraft = .ok step := by
  have hfills : form.Fills ([("workflow", Json.text step.workflow),
      ("step", Json.text step.step)].map fun m => (m.1, m.2.toDraft)) := by
    refine .of_forall₂ (by simp [form, Form.names, Slot.of]) ?_
    exact .cons ⟨rfl, rfl⟩ <| .cons ⟨rfl, rfl⟩ .nil
  obtain ⟨fields, hopen, hfound⟩ := Form.exists_fields hfills origin
  simp only [List.forall_mem_cons] at hfound
  obtain ⟨hworkflow, hstep, -⟩ := hfound
  have hworkflow' : fields.get "workflow" text = .ok step.workflow := Fields.get_eq hworkflow rfl
  have hstep' : fields.get "step" text = .ok step.step := Fields.get_eq hstep rfl
  simp only [decode, toJson, hopen, ok_bind, hworkflow', hstep']
  rfl

theorem Evidence.decode_toJson (origin : Origin) (evidence : Evidence) :
    decode origin evidence.toJson.toDraft = .ok evidence := by
  have hkind := EvidenceKind.decode_name origin evidence.kind
  have hfills : (form origin).Fills ([("kind", Json.text evidence.kind.name),
      ("label", .text evidence.label), ("ref", .text evidence.reference)].map
        fun m => (m.1, m.2.toDraft)) := by
    refine .of_forall₂ (by simp [form, Form.names, Slot.of]) ?_
    exact .cons ⟨rfl, Slot.check_of _ _ hkind⟩ <| .cons ⟨rfl, rfl⟩ <| .cons ⟨rfl, rfl⟩ .nil
  obtain ⟨fields, hopen, hfound⟩ := Form.exists_fields hfills origin
  simp only [List.forall_mem_cons] at hfound
  obtain ⟨hkindField, hlabel, href, -⟩ := hfound
  have hkind' := Fields.get_eq hkindField hkind
  have hlabel' : fields.get "label" text = .ok evidence.label := Fields.get_eq hlabel rfl
  have href' : fields.get "ref" text = .ok evidence.reference := Fields.get_eq href rfl
  simp only [decode, toJson, hopen, ok_bind, hkind', hlabel', href']
  rfl

/-- An approval is read back if the text of its time is exact. -/
theorem Approval.decode_toJson (origin : Origin) {approval : Approval}
    (hexact : ∀ t ∈ approval.resolvedAt, t.HasExactText) :
    decode origin approval.toJson.toDraft = .ok approval := by
  have hstatus := ApprovalStatus.decode_name origin approval.status
  have hresolvedAt := optionalInstant_format hexact
  have hfills : (form origin).Fills ([("status", Json.text approval.status.name),
      ("decision_id", .optionalText approval.decisionId),
      ("requested_by", .optionalText approval.requestedBy),
      ("resolved_by", .optionalText approval.resolvedBy),
      ("resolved_at", .optionalInstant approval.resolvedAt),
      ("reason", .optionalText approval.reason)].map fun m => (m.1, m.2.toDraft)) := by
    refine .of_forall₂ (by simp [form, Form.names, Slot.of]) ?_
    exact .cons ⟨rfl, Slot.check_of _ _ hstatus⟩ <|
      .cons ⟨rfl, Slot.check_of _ _ (optional_text _)⟩ <|
      .cons ⟨rfl, Slot.check_of _ _ (optional_text _)⟩ <|
      .cons ⟨rfl, Slot.check_of _ _ (optional_text _)⟩ <|
      .cons ⟨rfl, Slot.check_of _ _ hresolvedAt⟩ <|
      .cons ⟨rfl, Slot.check_of _ _ (optional_text _)⟩ .nil
  obtain ⟨fields, hopen, hfound⟩ := Form.exists_fields hfills origin
  simp only [List.forall_mem_cons] at hfound
  obtain ⟨hstatusField, hdecisionId, hrequestedBy, hresolvedBy, hresolvedField, hreason, -⟩ :=
    hfound
  have hstatus' := Fields.get_eq hstatusField hstatus
  have hdecisionId' := Fields.getD_eq none hdecisionId (optional_text _)
  have hrequestedBy' := Fields.getD_eq none hrequestedBy (optional_text _)
  have hresolvedBy' := Fields.getD_eq none hresolvedBy (optional_text _)
  have hresolvedAt' := Fields.getD_eq none hresolvedField hresolvedAt
  have hreason' := Fields.getD_eq none hreason (optional_text _)
  simp only [decode, toJson, hopen, ok_bind, hstatus', hdecisionId', hrequestedBy', hresolvedBy',
    hresolvedAt', hreason']
  rfl

/-- An approval that is read has a time in a year with four digits, if it has one. -/
theorem Approval.hasPlainYear_of_decode {origin : Origin} {approval other : Approval}
    (h : decode origin approval.toJson.toDraft = .ok other) :
    ∀ t ∈ approval.resolvedAt, t.HasPlainYear := by
  cases hopen : (form origin).openDraft origin approval.toJson.toDraft with
  | error fault =>
    rw [decode, hopen] at h
    cases h
  | ok fields =>
    have hcheck := Form.check_of_openDraft hopen
      (m := ("resolved_at", .optionalInstant approval.resolvedAt)) (by simp) rfl
    obtain ⟨other, hread⟩ := Slot.exists_of_check hcheck
    exact hasPlainYear_of_optionalInstant hread

/-- A leap second that is read of an approval ends a minute. -/
theorem Approval.onMinute_of_decode {origin : Origin} {draft : Json.Draft} {approval : Approval}
    (h : decode origin draft = .ok approval) : ∀ t ∈ approval.resolvedAt, t.OnMinute := by
  obtain ⟨fields, -, h⟩ := bind_eq_ok_iff.mp h
  obtain ⟨status, -, h⟩ := bind_eq_ok_iff.mp h
  obtain ⟨decisionId, -, h⟩ := bind_eq_ok_iff.mp h
  obtain ⟨requestedBy, -, h⟩ := bind_eq_ok_iff.mp h
  obtain ⟨resolvedBy, -, h⟩ := bind_eq_ok_iff.mp h
  obtain ⟨resolvedAt, hresolvedAt, h⟩ := bind_eq_ok_iff.mp h
  obtain ⟨reason, -, h⟩ := bind_eq_ok_iff.mp h
  obtain rfl := Except.ok.inj h
  rcases Fields.exists_of_getD hresolvedAt with ⟨written, hwritten⟩ | rfl
  · exact onMinute_of_optionalInstant hwritten
  · simp

/-! ## Events -/

namespace Event

/-- The text of the event's confidence is read back as the number it was. -/
def ConfidenceReadsBack (event : Event) : Prop :=
  ∀ x ∈ event.confidence, (Json.Number.real x).ReadsBack

theorem confidenceReadsBack_of_none {event : Event} (h : event.confidence = none) :
    event.ConfidenceReadsBack := by
  simp [ConfidenceReadsBack, h]

/-! ### The draft of a payload -/

section

variable {f : Json.Number → Json.Number}

theorem readable_approval (depth : Nat) (approval : Approval) :
    Readable f (depth + 1) approval.toJson := by
  refine .object ?_
  simp only [List.forall_mem_cons]
  exact ⟨.text _ _, .optionalText _ _, .optionalText _ _, .optionalText _ _,
    .optionalInstant _ _, .optionalText _ _, by simp⟩

theorem readable_evidence (depth : Nat) (evidence : List Evidence) :
    Readable f (depth + 2) (.list (evidence.map Evidence.toJson)) := by
  refine .list fun v hv => ?_
  obtain ⟨piece, -, rfl⟩ := List.mem_map.mp hv
  refine .object ?_
  simp only [List.forall_mem_cons]
  exact ⟨.text _ _, .text _ _, .text _ _, by simp⟩

theorem readable_origin (depth : Nat) (origin : Option WorkflowStep) :
    Readable f (depth + 1) ((origin.map WorkflowStep.toJson).getD .null) := by
  cases origin with
  | none => exact .null _
  | some step =>
    refine .object ?_
    simp only [List.forall_mem_cons]
    exact ⟨.text _ _, .text _ _, by simp⟩

/-- Payloads are nested three deep, and their only number is the confidence. -/
theorem readable_payload {event : Event}
    (h : ∀ x ∈ event.confidence, (Json.Number.real x).IsReadAs (f (.real x))) (depth : Nat) :
    Readable f (depth + 3) event.payload := by
  have hconfidence : Readable f (depth + 2)
      ((event.confidence.map fun x => Json.number (.real x)).getD .null) := by
    cases hx : event.confidence with
    | none => exact .null _
    | some x => exact .number _ (h x hx)
  refine .object ?_
  simp only [List.forall_mem_cons]
  exact ⟨.text _ _, .text _ _, .text _ _, .text _ _, .text _ _, .text _ _, .text _ _, hconfidence,
    .optionalText _ _, .bool _ _, readable_approval _ _, readable_evidence _ _,
    readable_origin _ _, by simp⟩

theorem mapNumbers_approval (approval : Approval) :
    Json.mapNumbers f approval.toJson = approval.toJson := by
  simp [Approval.toJson, Json.mapNumbers_object, Json.mapNumbers_optionalText,
    Json.mapNumbers_optionalInstant, Json.mapNumbers]

theorem mapNumbers_evidence (evidence : List Evidence) :
    Json.mapNumbers f (.list (evidence.map Evidence.toJson)) =
      .list (evidence.map Evidence.toJson) := by
  rw [Json.mapNumbers_list, List.map_map]
  rfl

theorem mapNumbers_origin (origin : Option WorkflowStep) :
    Json.mapNumbers f ((origin.map WorkflowStep.toJson).getD .null) =
      (origin.map WorkflowStep.toJson).getD .null := by
  cases origin <;> rfl

end

/-- The event with its confidence exchanged. -/
def mapConfidence (g : Binary64 → Binary64) (event : Event) : Event :=
  { event with confidence := event.confidence.map g }

/-- The numbers of a payload exchanged as the confidence is. -/
def exchange (g : Binary64 → Binary64) : Json.Number → Json.Number
  | .whole n => .whole n
  | .real x => .real (g x)

theorem mapNumbers_payload (g : Binary64 → Binary64) (event : Event) :
    Json.mapNumbers (exchange g) event.payload = (event.mapConfidence g).payload := by
  have hconfidence : Json.mapNumbers (exchange g)
      ((event.confidence.map fun x => Json.number (.real x)).getD .null) =
      (((event.confidence.map g).map fun x => Json.number (.real x)).getD .null) := by
    cases event.confidence <;> rfl
  simp only [payload, mapConfidence, Json.mapNumbers_object, List.map_cons, List.map_nil,
    hconfidence, Json.mapNumbers_optionalText, mapNumbers_approval, mapNumbers_evidence,
    mapNumbers_origin]
  rfl

/-- The text of a payload is read as the payload of the event with the confidence that its text is
read as. -/
theorem readDraft_payload {g : Binary64 → Binary64} {event : Event}
    (h : ∀ x ∈ event.confidence, (Json.Number.real x).IsReadAs (.real (g x))) :
    Json.readDraft event.payload.canonical.toList =
      ((event.mapConfidence g).payload.toDraft, none) := by
  rw [Json.readDraft_canonical (readable_payload (f := exchange g) h 124), rereadDraft,
    mapNumbers_payload]

@[simp] theorem mapConfidence_self (event : Event) : event.mapConfidence (fun x => x) = event := by
  simp [mapConfidence]

/-! ### Decoding a payload -/

/-- The fields of an event's document with its time written in some way. -/
def membersAt (event : Event) (raw : String) : List (String × Json) :=
  [("id", .text event.id),
    ("run_id", .text event.runId),
    ("timestamp", .text raw),
    ("type", .text event.kind.name),
    ("actor", .text event.actor.name),
    ("title", .text event.title),
    ("details", .text event.details),
    ("confidence", (event.confidence.map fun x => Json.number (.real x)).getD .null),
    ("risk_level", .optionalText (event.riskLevel.map RiskLevel.name)),
    ("requires_approval", .bool event.requiresApproval),
    ("approval", event.approval.toJson),
    ("evidence", .list (event.evidence.map Evidence.toJson)),
    ("meta", (event.origin.map WorkflowStep.toJson).getD .null)]

theorem payload_eq (event : Event) :
    event.payload = .object (event.membersAt event.timestamp.format) := rfl

theorem optional_confidence (confidence : Option Decimal.Binary64) :
    optional real ((confidence.map fun x => Json.number (.real x)).getD .null).toDraft =
      .ok confidence := by
  cases confidence <;> rfl

theorem list_evidence (origin : Origin) (evidence : List Evidence) :
    list (Evidence.decode origin) (Json.list (evidence.map Evidence.toJson)).toDraft =
      .ok evidence :=
  list_map fun piece _ => piece.decode_toJson origin

theorem optional_origin (origin : Origin) (found : Option WorkflowStep) :
    optional (WorkflowStep.decode origin)
      ((found.map WorkflowStep.toJson).getD .null).toDraft = .ok found := by
  cases found with
  | none => rfl
  | some step =>
    rw [Option.map_some, Option.getD_some, WorkflowStep.toJson, optional_object,
      ← WorkflowStep.toJson, step.decode_toJson origin]
    rfl

/-- However the time of an event is written, its document is read as the event. -/
theorem decode_membersAt (origin : Origin) {event : Event} {raw : String}
    (hraw : Instant.parse? raw = some event.timestamp)
    (hexact : ∀ t ∈ event.approval.resolvedAt, t.HasExactText) :
    decode origin (Json.object (event.membersAt raw)).toDraft = .ok event := by
  have htimestamp : instant (Json.text raw).toDraft = .ok event.timestamp := by
    show instantOf raw = .ok event.timestamp
    rw [instantOf, hraw]
  have hkind := EventKind.decode_name origin event.kind
  have hactor := Actor.decode_name origin event.actor
  have hconfidence := optional_confidence event.confidence
  have hrisk := RiskLevel.decode_name origin event.riskLevel
  have happroval := Approval.decode_toJson origin hexact
  have hevidence := list_evidence origin event.evidence
  have horigin := optional_origin origin event.origin
  have hfills : (form origin).Fills ((event.membersAt raw).map fun m => (m.1, m.2.toDraft)) := by
    refine .of_forall₂ (by simp [form, Form.names, Slot.of]) ?_
    exact .cons ⟨rfl, rfl⟩ <| .cons ⟨rfl, rfl⟩ <|
      .cons ⟨rfl, Slot.check_of _ _ htimestamp⟩ <| .cons ⟨rfl, Slot.check_of _ _ hkind⟩ <|
      .cons ⟨rfl, Slot.check_of _ _ hactor⟩ <| .cons ⟨rfl, rfl⟩ <| .cons ⟨rfl, rfl⟩ <|
      .cons ⟨rfl, Slot.check_of _ _ hconfidence⟩ <| .cons ⟨rfl, Slot.check_of _ _ hrisk⟩ <|
      .cons ⟨rfl, rfl⟩ <| .cons ⟨rfl, Slot.check_of _ _ happroval⟩ <|
      .cons ⟨rfl, Slot.check_of _ _ hevidence⟩ <| .cons ⟨rfl, Slot.check_of _ _ horigin⟩ .nil
  obtain ⟨fields, hopen, hfound⟩ := Form.exists_fields hfills origin
  simp only [membersAt, List.forall_mem_cons] at hfound
  obtain ⟨hid, hrunId, htimestampField, hkindField, hactorField, htitle, hdetails,
    hconfidenceField, hriskField, hrequires, happrovalField, hevidenceField, horiginField, -⟩ :=
    hfound
  have hid' : fields.get "id" text = .ok event.id := Fields.get_eq hid rfl
  have hrunId' : fields.get "run_id" text = .ok event.runId := Fields.get_eq hrunId rfl
  have htimestamp' := Fields.get_eq htimestampField htimestamp
  have hkind' := Fields.get_eq hkindField hkind
  have hactor' := Fields.get_eq hactorField hactor
  have htitle' : fields.get "title" text = .ok event.title := Fields.get_eq htitle rfl
  have hdetails' : fields.get "details" text = .ok event.details := Fields.get_eq hdetails rfl
  have hconfidence' := Fields.getD_eq none hconfidenceField hconfidence
  have hrisk' := Fields.getD_eq none hriskField hrisk
  have hrequires' : fields.getD "requires_approval" bool false = .ok event.requiresApproval :=
    Fields.getD_eq false hrequires rfl
  have happroval' := Fields.get_eq happrovalField happroval
  have hevidence' := Fields.getD_eq [] hevidenceField hevidence
  have horigin' := Fields.getD_eq none horiginField horigin
  simp only [decode, hopen, ok_bind, hid', hrunId', htimestamp', hkind', hactor', htitle',
    hdetails', hconfidence', hrisk', hrequires', happroval', hevidence', horigin']
  rfl

/-- An event whose times belong to years with four digits is read as it is written. -/
theorem decode_payload (origin : Origin) {event : Event} (hnormal : event.normalized = event)
    (hyears : event.HasPlainYears) : decode origin event.payload.toDraft = .ok event.asWritten := by
  have hexact := hasExactTexts (normalized_asWritten hnormal) hyears.asWritten
    event.leapsOnMinute_asWritten
  rw [← payload_asWritten, payload_eq]
  exact decode_membersAt origin (Instant.parse?_format hexact.timestamp) hexact.resolvedAt

/-- What is read of an event has its times in years with four digits. -/
theorem hasPlainYears_of_decode {origin : Origin} {event other : Event}
    (h : decode origin event.payload.toDraft = .ok other) : event.HasPlainYears := by
  cases hopen : (form origin).openDraft origin event.payload.toDraft with
  | error fault =>
    rw [decode, hopen] at h
    cases h
  | ok fields =>
    constructor
    · have hcheck := Form.check_of_openDraft hopen (m := ("timestamp", .instant event.timestamp))
        (by simp) rfl
      obtain ⟨t, hread⟩ := Slot.exists_of_check hcheck
      exact hasPlainYear_of_instant hread
    · have hcheck := Form.check_of_openDraft hopen (m := ("approval", event.approval.toJson))
        (by simp) rfl
      obtain ⟨approval, hread⟩ := Slot.exists_of_check hcheck
      exact Approval.hasPlainYear_of_decode hread

/-- The stored text of an event is read as the event as it is written, with the confidence that its
text is read as, if its times belong to years with four digits. -/
theorem ofText?_payload_eq {g : Binary64 → Binary64} {event : Event}
    (hnormal : event.normalized = event)
    (hconfidence : ∀ x ∈ event.confidence, (Json.Number.real x).IsReadAs (.real (g x)))
    (hyears : event.HasPlainYears) :
    ofText? event.payload.canonical = .ok (event.asWritten.mapConfidence g) := by
  have hother : (event.mapConfidence g).normalized = event.mapConfidence g :=
    congrArg (mapConfidence g) hnormal
  rw [ofText?, readDraft_payload hconfidence]
  dsimp only
  rw [decode_payload .text hother ⟨hyears.timestamp, hyears.resolvedAt⟩]
  rfl

/-- The stored text of an event is read back as it is written if its times belong to years with four
digits. -/
theorem ofText?_payload {event : Event} (hnormal : event.normalized = event)
    (hconfidence : event.ConfidenceReadsBack) (hyears : event.HasPlainYears) :
    ofText? event.payload.canonical = .ok event.asWritten := by
  rw [ofText?_payload_eq (g := fun x => x) hnormal hconfidence hyears, mapConfidence_self]

/-- Otherwise it is not read at all. -/
theorem hasPlainYears_of_ofText? {event other : Event} (hconfidence : event.ConfidenceReadsBack)
    (h : ofText? event.payload.canonical = .ok other) : event.HasPlainYears := by
  rw [ofText?, readDraft_payload (g := fun x => x) hconfidence, mapConfidence_self] at h
  dsimp only at h
  split at h
  · cases h
  · rename_i hnone
    cases hnone
  · rename_i hdecode _
    exact hasPlainYears_of_decode hdecode

/-! ### What is decoded -/

/-- Leap seconds that are read end a minute. -/
theorem leapsOnMinute_of_decode {origin : Origin} {draft : Json.Draft} {event : Event}
    (h : decode origin draft = .ok event) : event.LeapsOnMinute := by
  obtain ⟨fields, -, h⟩ := bind_eq_ok_iff.mp h
  obtain ⟨id, -, h⟩ := bind_eq_ok_iff.mp h
  obtain ⟨runId, -, h⟩ := bind_eq_ok_iff.mp h
  obtain ⟨timestamp, htimestamp, h⟩ := bind_eq_ok_iff.mp h
  obtain ⟨kind, -, h⟩ := bind_eq_ok_iff.mp h
  obtain ⟨actor, -, h⟩ := bind_eq_ok_iff.mp h
  obtain ⟨title, -, h⟩ := bind_eq_ok_iff.mp h
  obtain ⟨details, -, h⟩ := bind_eq_ok_iff.mp h
  obtain ⟨confidence, -, h⟩ := bind_eq_ok_iff.mp h
  obtain ⟨riskLevel, -, h⟩ := bind_eq_ok_iff.mp h
  obtain ⟨requiresApproval, -, h⟩ := bind_eq_ok_iff.mp h
  obtain ⟨approval, happroval, h⟩ := bind_eq_ok_iff.mp h
  obtain ⟨evidence, -, h⟩ := bind_eq_ok_iff.mp h
  obtain ⟨step, -, h⟩ := bind_eq_ok_iff.mp h
  obtain rfl := Except.ok.inj h
  obtain ⟨written, hwritten⟩ := Fields.exists_of_get htimestamp
  obtain ⟨answer, hanswer⟩ := Fields.exists_of_get happroval
  exact ⟨onMinute_of_instant hwritten, Approval.onMinute_of_decode hanswer⟩

/-- The event that a document stands for has been decoded, trimmed and checked. -/
theorem exists_of_ofSubmission? {value : Json} {event : Event} (h : ofSubmission? value = .ok event) :
    ∃ decoded, ofJson? value = .ok decoded ∧ event = decoded.normalized ∧ event.problems = [] := by
  unfold ofSubmission? at h
  split at h
  · cases h
  · rename_i decoded hdecoded
    split at h
    · rename_i hproblems
      obtain rfl := Except.ok.inj h
      exact ⟨decoded, hdecoded, rfl, hproblems⟩
    · cases h

theorem leapsOnMinute_of_ofSubmission? {value : Json} {event : Event}
    (h : ofSubmission? value = .ok event) : event.LeapsOnMinute := by
  obtain ⟨decoded, hdecoded, rfl, -⟩ := exists_of_ofSubmission? h
  exact (leapsOnMinute_of_decode hdecoded).normalized fun _ => Instant.onMinute_toMicros

theorem leapsOnMinute_of_ofText? {payload : String} {event : Event}
    (h : ofText? payload = .ok event) : event.LeapsOnMinute := by
  unfold ofText? at h
  split at h
  split at h
  · cases h
  · cases h
  · rename_i hdecode _
    exact Except.ok.inj h ▸ leapsOnMinute_of_decode hdecode

end Event

end RunLedger
