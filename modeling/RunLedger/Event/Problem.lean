/-
  Event/Problem.lean --- what is wrong with a submitted document.

  WHAT THIS FILE IS FOR.  A refused document comes back with its problems, each
  with the field it concerns, a sentence, and a code that programs can rely on.
  Problems of content are found on a decoded event.  A document that cannot be
  decoded has one problem, and its code and field are read off the sentence that
  decoding ends with.
-/
import RunLedger.Event.Decode
import RunLedger.Text.Search

set_option autoImplicit false

namespace RunLedger

open RunLedger.Text

/-- The codes of problems. -/
inductive ProblemCode where
  | missingEventId
  | missingRunId
  | missingTimestamp
  | missingEventType
  | missingActor
  | missingTimelineFields
  | missingApproval
  | missingRequiredField
  | missingDecisionId
  | unknownField
  | invalidEnumValue
  | invalidTimestamp
  | invalidConfidenceBounds
  | schemaValidation
  deriving DecidableEq, Repr, Inhabited

/-- The written code. -/
def ProblemCode.name : ProblemCode → String
  | missingEventId => "MISSING_EVENT_ID"
  | missingRunId => "MISSING_RUN_ID"
  | missingTimestamp => "MISSING_TIMESTAMP"
  | missingEventType => "MISSING_EVENT_TYPE"
  | missingActor => "MISSING_ACTOR"
  | missingTimelineFields => "MISSING_TIMELINE_FIELDS"
  | missingApproval => "MISSING_APPROVAL"
  | missingRequiredField => "MISSING_REQUIRED_FIELD"
  | missingDecisionId => "MISSING_DECISION_ID"
  | unknownField => "UNKNOWN_FIELD"
  | invalidEnumValue => "INVALID_ENUM_VALUE"
  | invalidTimestamp => "INVALID_TIMESTAMP"
  | invalidConfidenceBounds => "INVALID_CONFIDENCE_BOUNDS"
  | schemaValidation => "SCHEMA_VALIDATION_ERROR"

/-- A problem: the field it concerns (empty for the document as a whole), a sentence and a
code. -/
structure Problem where
  path : String
  message : String
  code : ProblemCode
  deriving DecidableEq, Repr, Inhabited

namespace Problem

/-! ## Documents that cannot be decoded -/

/-- The code for a field that is missing. -/
def codeOfMissing (field : String) : ProblemCode :=
  match field with
  | "id" => .missingEventId
  | "run_id" => .missingRunId
  | "timestamp" => .missingTimestamp
  | "type" => .missingEventType
  | "actor" => .missingActor
  | "title" => .missingTimelineFields
  | "details" => .missingTimelineFields
  | "approval" => .missingApproval
  | _ => .missingRequiredField

/-- The sentence about timestamps, without the timestamp. -/
def timestampPhrase : List Char :=
  "timestamp must be RFC 3339 and include timezone information".toList

/-- The problem of a sentence that decoding ended with: the first phrase that the sentence
holds decides. -/
def ofMessage (message : String) : Problem :=
  let cs := message.toList
  match namedAfter? "missing field ".toList cs with
  | some field =>
    let field := String.ofList field
    ⟨field, message, codeOfMissing field⟩
  | none =>
    match namedAfter? "unknown field ".toList cs with
    | some field => ⟨String.ofList field, message, .unknownField⟩
    | none =>
      if hasPhrase "unknown variant".toList cs then ⟨"", message, .invalidEnumValue⟩
      else if hasPhrase timestampPhrase cs then ⟨"timestamp", message, .invalidTimestamp⟩
      else ⟨"", message, .schemaValidation⟩

/-- The problem of a document that cannot be decoded. -/
def ofFault (fault : Decode.Fault) : Problem := ofMessage fault.message

end Problem

/-! ## Events with problems of content -/

namespace Event

/-- The event as it is stored: text fields without the blanks around them, times to the
microsecond. -/
def normalized (event : Event) : Event :=
  { event with
    id := trim event.id
    runId := trim event.runId
    title := trim event.title
    details := trim event.details
    timestamp := event.timestamp.toMicros
    approval := { event.approval with
      resolvedAt := event.approval.resolvedAt.map Time.Instant.toMicros } }

/-- A problem for a text field that is blank. -/
def blankProblem (path value : String) (code : ProblemCode) : List Problem :=
  if isBlankText value then [⟨path, path ++ " must not be empty", code⟩] else []

/-- The problems of an event's content, in the order of their fields. -/
def problems (event : Event) : List Problem :=
  let confidence :=
    match event.confidence with
    | some x =>
      if x.isUnitInterval then []
      else [⟨"confidence", "confidence must be between 0 and 1", .invalidConfidenceBounds⟩]
    | none => []
  confidence ++
    blankProblem "details" event.details .missingTimelineFields ++
    blankProblem "id" event.id .missingEventId ++
    blankProblem "run_id" event.runId .missingRunId ++
    blankProblem "title" event.title .missingTimelineFields

/-! ## Submitted documents -/

/-- The event that a submitted document stands for, ready to be stored, or its problems. -/
def ofSubmission? (value : Json) : Except (List Problem) Event :=
  match ofJson? value with
  | .error fault => .error [.ofFault fault]
  | .ok event =>
    match event.normalized.problems with
    | [] => .ok event.normalized
    | problems => .error problems

end Event

end RunLedger
