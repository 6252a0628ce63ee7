/-
  Proofs/Record/Envelope.lean --- what the text of an envelope tells.

  WHAT THIS FILE IS FOR.  The digest of a record is that of the canonical text of an
  envelope.  The text tells all six parts of it: the run, the event, the time as it
  is written, the payload up to the order of its members, the mark and the link.
  No two of them can be exchanged for others without the text being another one.
-/
import RunLedger.Proofs.Json.Rearrangement
import RunLedger.Record.Basic

set_option autoImplicit false

namespace RunLedger

open RunLedger.Time (Instant)

theorem Json.optionalText_injective : Function.Injective Json.optionalText := by
  intro s t h
  cases s <;> cases t <;> simp_all [Json.optionalText]

section

variable {runId runId' eventId eventId' : String} {timestamp timestamp' : Instant}
  {payload payload' : Json} {warning warning' : Bool} {link link' : Option String}

/-- The draft of an envelope tells its parts, the payload as a draft. -/
theorem parts_of_toDraft_envelope
    (h : (envelope runId eventId timestamp payload warning link).toDraft =
      (envelope runId' eventId' timestamp' payload' warning' link').toDraft) :
    runId = runId' ∧ eventId = eventId' ∧ timestamp.format = timestamp'.format ∧
      payload.toDraft = payload'.toDraft ∧ warning = warning' ∧ link = link' := by
  have hparts := Json.map_toDraft_eq_of_object (by rfl) (by simp) h
  simp only [List.map_cons, List.map_nil, List.cons.injEq, Prod.mk.injEq, true_and, and_true,
    Json.instant, Json.toDraft, Json.Draft.text.injEq, Json.Draft.bool.injEq] at hparts
  obtain ⟨hrun, hevent, htime, hpayload, hwarning, hlink⟩ := hparts
  have hlink := Json.toldFrom_of_isLeaf (Json.isLeaf_optionalText link) hlink
  exact ⟨hrun, hevent, htime, hpayload, hwarning, Json.optionalText_injective hlink⟩

/-- Envelopes are rearrangements of each other if and only if their payloads are and their other
parts are the same. -/
theorem rearranges_envelope_iff :
    (envelope runId eventId timestamp payload warning link).Rearranges
        (envelope runId' eventId' timestamp' payload' warning' link') ↔
      runId = runId' ∧ eventId = eventId' ∧ timestamp.format = timestamp'.format ∧
        payload.Rearranges payload' ∧ warning = warning' ∧ link = link' := by
  constructor
  · intro h
    obtain ⟨hrun, hevent, htime, hpayload, hwarning, hlink⟩ :=
      parts_of_toDraft_envelope (Json.toDraft_eq_iff.mpr h)
    exact ⟨hrun, hevent, htime, Json.toDraft_eq_iff.mp hpayload, hwarning, hlink⟩
  · rintro ⟨rfl, rfl, htime, hpayload, rfl, rfl⟩
    unfold envelope Json.instant
    rw [htime]
    exact .member [_, _, _] [_, _] "payload" hpayload

end

/-- Canonical text is a faithful encoding.  Two values, however deep, have one canonical text if
and only if they are the same up to the order of members.  Numbers are the same that have one kind,
one sign and one value: 1 and 1.0 differ, and so do 0.0 and -0.0, which are equal as floating point
numbers.  So the envelopes of two records have one text if and only if the six parts agree, payloads
up to the order of members. -/
theorem canonical_text_is_faithful :
    (∀ v w : Json, v.canonical = w.canonical ↔ v.Rearranges w) ∧
    ∀ (runId runId' eventId eventId' : String) (timestamp timestamp' : Instant)
      (payload payload' : Json) (warning warning' : Bool) (link link' : Option String),
      (envelope runId eventId timestamp payload warning link).canonical =
          (envelope runId' eventId' timestamp' payload' warning' link').canonical ↔
        runId = runId' ∧ eventId = eventId' ∧ timestamp.format = timestamp'.format ∧
          payload.Rearranges payload' ∧ warning = warning' ∧ link = link' := by
  refine ⟨fun v w => Json.canonical_eq_iff, ?_⟩
  intro runId runId' eventId eventId' timestamp timestamp' payload payload' warning warning' link
    link'
  exact Json.canonical_eq_iff.trans rearranges_envelope_iff

/-- Members come in key order at every depth, and the order of items is kept. -/
example :
    Json.canonical (.object [
      ("b", .nat 1),
      ("a", .object [
        ("z", .list [.nat 3, .object [("y", .bool true), ("x", .null)]]),
        ("c", .text "s")])]) =
      "\x7b\"a\":\x7b\"c\":\"s\",\"z\":[3,\x7b\"x\":null,\"y\":true\x7d]\x7d,\"b\":1\x7d" := by
  rw [Json.canonical, Json.canonicalChars_eq_writtenChars]
  decide +kernel

end RunLedger
