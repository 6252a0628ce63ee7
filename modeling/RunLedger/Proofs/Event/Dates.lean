/-
  Proofs/Event/Dates.lean --- the times of an event.

  WHAT THIS FILE IS FOR.  An event has the time at which it happened and, if it
  answers a request, the time of the answer.  What is said of instants is said of
  both: that their years have four digits, that their leap seconds end a minute,
  that their texts are exact.  The payload of an event is that of the event as it
  is written, whose leap seconds all end a minute.
-/
import RunLedger.Event.Payload
import RunLedger.Event.Problem
import RunLedger.Proofs.Time.Timestamp

set_option autoImplicit false

namespace RunLedger

open RunLedger.Time (Instant)

namespace Event

variable {event : Event} {dates other : Instant → Prop}

/-- The times of the event are of a kind. -/
structure DatedBy (event : Event) (dates : Instant → Prop) : Prop where
  timestamp : dates event.timestamp
  resolvedAt : ∀ t ∈ event.approval.resolvedAt, dates t

theorem DatedBy.imp (h : event.DatedBy dates) (himp : ∀ t, dates t → other t) :
    event.DatedBy other :=
  ⟨himp _ h.timestamp, fun t ht => himp t (h.resolvedAt t ht)⟩

/-- An event that holds no answer is dated by the time at which it happened. -/
theorem DatedBy.of_unanswered (h : dates event.timestamp)
    (hresolved : event.approval.resolvedAt = none) : event.DatedBy dates :=
  ⟨h, by simp [hresolved]⟩

theorem datedBy_any (event : Event) : event.DatedBy fun _ => True :=
  ⟨trivial, fun _ _ => trivial⟩

theorem DatedBy.normalized (h : event.DatedBy dates)
    (hmicros : ∀ t, dates t → dates t.toMicros) : event.normalized.DatedBy dates where
  timestamp := hmicros _ h.timestamp
  resolvedAt t ht := by
    obtain ⟨found, hfound, rfl⟩ := Option.map_eq_some_iff.mp ht
    exact hmicros found (h.resolvedAt found hfound)

/-- The times of the event belong to years with four digits. -/
abbrev HasPlainYears (event : Event) : Prop := event.DatedBy Instant.HasPlainYear

/-- The leap seconds that the event is dated by end a minute. -/
abbrev LeapsOnMinute (event : Event) : Prop := event.DatedBy Instant.OnMinute

/-- What is normalized has no time finer than a microsecond. -/
theorem toMicros_of_normalized (h : event.normalized = event) :
    event.DatedBy fun t => t.toMicros = t := by
  refine ⟨congrArg Event.timestamp h, fun t ht => ?_⟩
  have hresolved : event.approval.resolvedAt.map Instant.toMicros = event.approval.resolvedAt :=
    congrArg (fun event => event.approval.resolvedAt) h
  rw [Option.mem_def.mp ht, Option.map_some] at hresolved
  exact Option.some.inj hresolved

/-- The texts of the event's times are exact. -/
theorem hasExactTexts (hnormal : event.normalized = event) (hyears : event.HasPlainYears)
    (hleaps : event.LeapsOnMinute) : event.DatedBy Instant.HasExactText where
  timestamp := ⟨(toMicros_of_normalized hnormal).timestamp, hyears.timestamp, hleaps.timestamp⟩
  resolvedAt t ht := ⟨(toMicros_of_normalized hnormal).resolvedAt t ht, hyears.resolvedAt t ht,
    hleaps.resolvedAt t ht⟩

/-! ## As it is written -/

/-- The event with the times that its texts are of. -/
def asWritten (event : Event) : Event :=
  { event with
    timestamp := event.timestamp.asWritten
    approval := { event.approval with
      resolvedAt := event.approval.resolvedAt.map Instant.asWritten } }

theorem asWritten_of_leapsOnMinute (h : event.LeapsOnMinute) : event.asWritten = event := by
  have hresolved : event.approval.resolvedAt.map Instant.asWritten = event.approval.resolvedAt := by
    cases hat : event.approval.resolvedAt with
    | none => rfl
    | some t => rw [Option.map_some, Instant.asWritten_of_onMinute (h.resolvedAt t hat)]
  rw [asWritten, Instant.asWritten_of_onMinute h.timestamp, hresolved]

/-- What the times as they are written are, the times of the event as it is written are. -/
theorem DatedBy.asWritten (h : event.DatedBy fun t => dates t.asWritten) :
    event.asWritten.DatedBy dates where
  timestamp := h.timestamp
  resolvedAt t ht := by
    obtain ⟨found, hfound, rfl⟩ := Option.map_eq_some_iff.mp ht
    exact h.resolvedAt found hfound

theorem leapsOnMinute_asWritten (event : Event) : event.asWritten.LeapsOnMinute :=
  DatedBy.asWritten ⟨Instant.onMinute_asWritten _, fun t _ => Instant.onMinute_asWritten t⟩

theorem HasPlainYears.asWritten (h : event.HasPlainYears) : event.asWritten.HasPlainYears :=
  DatedBy.asWritten (h.imp fun _ => Instant.hasPlainYear_asWritten.mpr)

theorem normalized_asWritten (h : event.normalized = event) :
    event.asWritten.normalized = event.asWritten := by
  have htimes : event.asWritten.DatedBy fun t => t.toMicros = t :=
    DatedBy.asWritten ((toMicros_of_normalized h).imp fun _ => Instant.toMicros_asWritten)
  have hresolved : event.asWritten.approval.resolvedAt.map Instant.toMicros =
      event.asWritten.approval.resolvedAt := by
    cases hat : event.asWritten.approval.resolvedAt with
    | none => rfl
    | some t => rw [Option.map_some, htimes.resolvedAt t hat]
  have hid : Text.trim event.id = event.id := congrArg Event.id h
  have hrunId : Text.trim event.runId = event.runId := congrArg Event.runId h
  have htitle : Text.trim event.title = event.title := congrArg Event.title h
  have hdetails : Text.trim event.details = event.details := congrArg Event.details h
  rw [normalized, htimes.timestamp, hresolved]
  simp only [Event.asWritten, hid, hrunId, htitle, hdetails]

theorem payload_asWritten (event : Event) : event.asWritten.payload = event.payload := by
  have hresolved : Json.optionalInstant (event.approval.resolvedAt.map Instant.asWritten) =
      Json.optionalInstant event.approval.resolvedAt := by
    cases event.approval.resolvedAt with
    | none => rfl
    | some t => exact congrArg Json.text t.format_asWritten
  have htimestamp : Json.instant event.timestamp.asWritten = Json.instant event.timestamp :=
    congrArg Json.text event.timestamp.format_asWritten
  simp only [payload, Approval.toJson, asWritten, hresolved, htimestamp]

end Event

end RunLedger
