/-
  Proofs/Event/Payload.lean --- what the text of an envelope tells.

  WHAT THIS FILE IS FOR.  The documents of events have fixed lists of fields, so
  although canonical text forgets the order of fields it tells the whole document.
  The canonical text of an envelope tells the payload of the event, whether the
  record is marked, and the link.
-/
import RunLedger.Proofs.Record.Envelope

set_option autoImplicit false

namespace RunLedger

/-! ## The documents of an event -/

open Json (ToldFrom toldFrom_of_isLeaf toldFrom_list toldFrom_object)

theorem Json.isLeaf_optionalInstant (t : Option Time.Instant) :
    (optionalInstant t).isLeaf = true := by
  cases t <;> rfl

theorem Approval.toldFrom_toJson (a b : Approval) : ToldFrom a.toJson b.toJson := by
  refine toldFrom_object rfl (by simp) ?_
  refine .cons (toldFrom_of_isLeaf rfl) <| .cons (toldFrom_of_isLeaf ?_) <|
    .cons (toldFrom_of_isLeaf ?_) <| .cons (toldFrom_of_isLeaf ?_) <|
    .cons (toldFrom_of_isLeaf ?_) <| .cons (toldFrom_of_isLeaf ?_) .nil
  · exact Json.isLeaf_optionalText a.decisionId
  · exact Json.isLeaf_optionalText a.requestedBy
  · exact Json.isLeaf_optionalText a.resolvedBy
  · exact Json.isLeaf_optionalInstant a.resolvedAt
  · exact Json.isLeaf_optionalText a.reason

theorem Evidence.toldFrom_toJson (a b : Evidence) : ToldFrom a.toJson b.toJson := by
  refine toldFrom_object rfl (by simp) ?_
  exact .cons (toldFrom_of_isLeaf rfl) <| .cons (toldFrom_of_isLeaf rfl) <|
    .cons (toldFrom_of_isLeaf rfl) .nil

theorem WorkflowStep.toldFrom_toJson (a b : WorkflowStep) : ToldFrom a.toJson b.toJson := by
  refine toldFrom_object rfl (by simp) ?_
  exact .cons (toldFrom_of_isLeaf rfl) <| .cons (toldFrom_of_isLeaf rfl) .nil

namespace Event

theorem isLeaf_confidence (event : Event) :
    ((event.confidence.map fun x => Json.number (.real x)).getD .null).isLeaf = true := by
  cases event.confidence <;> rfl

theorem toldFrom_evidence (a b : Event) :
    ToldFrom (.list (a.evidence.map Evidence.toJson)) (.list (b.evidence.map Evidence.toJson)) := by
  refine toldFrom_list ?_
  intro v hv w hw
  obtain ⟨x, -, rfl⟩ := List.mem_map.mp hv
  obtain ⟨y, -, rfl⟩ := List.mem_map.mp hw
  exact Evidence.toldFrom_toJson x y

theorem toldFrom_origin (a b : Event) :
    ToldFrom ((a.origin.map WorkflowStep.toJson).getD .null)
      ((b.origin.map WorkflowStep.toJson).getD .null) := by
  cases ha : a.origin with
  | none => exact toldFrom_of_isLeaf rfl
  | some x =>
    cases hb : b.origin with
    | none => exact (toldFrom_of_isLeaf rfl).symm
    | some y => exact WorkflowStep.toldFrom_toJson x y

theorem toldFrom_payload (a b : Event) : ToldFrom a.payload b.payload := by
  refine toldFrom_object rfl (by simp) ?_
  refine .cons (toldFrom_of_isLeaf rfl) <| .cons (toldFrom_of_isLeaf rfl) <|
    .cons (toldFrom_of_isLeaf rfl) <| .cons (toldFrom_of_isLeaf rfl) <|
    .cons (toldFrom_of_isLeaf rfl) <| .cons (toldFrom_of_isLeaf rfl) <|
    .cons (toldFrom_of_isLeaf rfl) <| .cons (toldFrom_of_isLeaf ?_) <|
    .cons (toldFrom_of_isLeaf ?_) <| .cons (toldFrom_of_isLeaf rfl) <|
    .cons ?_ <| .cons ?_ <| .cons ?_ .nil
  · exact a.isLeaf_confidence
  · exact Json.isLeaf_optionalText _
  · exact Approval.toldFrom_toJson a.approval b.approval
  · exact toldFrom_evidence a b
  · exact toldFrom_origin a b

variable {a b : Event} {warning warning' : Bool} {link link' : Option String}

/-- The canonical text of an envelope tells what is in it. -/
theorem envelope_canonical_inj
    (h : (a.envelope warning link).canonical = (b.envelope warning' link').canonical) :
    a.payload = b.payload ∧ warning = warning' ∧ link = link' := by
  obtain ⟨-, -, -, hpayload, hwarning, hlink⟩ :=
    parts_of_toDraft_envelope (Json.toDraft_eq_of_canonical h)
  exact ⟨toldFrom_payload a b hpayload, hwarning, hlink⟩

end Event

end RunLedger
