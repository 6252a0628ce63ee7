/-
  Store/TableFile.lean --- a table as a document.

  WHAT THIS FILE IS FOR.  A durable table is kept in a file as one document: the
  highest place given out, and the rows.  A cell with a number that is not whole
  is kept as null, because nothing but its kind is ever read from it.
-/
import RunLedger.Decode.Record
import RunLedger.Json.Canonical
import RunLedger.Json.Reader
import RunLedger.Store.Table

set_option autoImplicit false

namespace RunLedger

open RunLedger.Decode
open RunLedger.Json (Draft)

/-- A whole number. -/
def Decode.whole : Decoder Int
  | .number (.whole n) => .ok n
  | draft => .error (misplaced draft "a whole number")

namespace Cell

/-- The document of a cell. -/
def toJson : Cell → Json
  | whole n => .number (.whole n)
  | real => .null
  | text s => .text s

/-- A cell from its document. -/
def decode : Decoder Cell
  | .null => .ok .real
  | .text s => .ok (.text s)
  | draft => (Decode.whole draft).map .whole

end Cell

namespace Row

/-- The document of a row. -/
def toJson (row : Row) : Json :=
  .object [
    ("sequence", .number (.whole row.sequence)),
    ("run_id", .text row.runId),
    ("event_id", .text row.eventId),
    ("timestamp", .text row.timestamp),
    ("payload_json", .text row.payload),
    ("integrity_warning", row.integrityWarning.toJson),
    ("prev_hash", .optionalText row.prevHash),
    ("hash", .text row.hash)]

/-- The fields of a row. -/
def form : Form where
  title := "row"
  strict := true
  slots := [
    .of "sequence" .required Decode.whole,
    .of "run_id" .required text,
    .of "event_id" .required text,
    .of "timestamp" .required text,
    .of "payload_json" .required text,
    .of "integrity_warning" .required Cell.decode,
    .of "prev_hash" .required (optional text),
    .of "hash" .required text]

/-- A row from its document. -/
def decode : Decoder Row := fun draft => do
  let fields ← form.openDraft .value draft
  return {
    sequence := ← fields.get "sequence" Decode.whole
    runId := ← fields.get "run_id" text
    eventId := ← fields.get "event_id" text
    timestamp := ← fields.get "timestamp" text
    payload := ← fields.get "payload_json" text
    integrityWarning := ← fields.get "integrity_warning" Cell.decode
    prevHash := ← fields.get "prev_hash" (optional text)
    hash := ← fields.get "hash" text }

end Row

namespace Table

/-- The document of a table. -/
def toJson (table : Table) : Json :=
  .object [
    ("placed", .number (.whole table.placed)),
    ("rows", .list (table.rows.map Row.toJson))]

/-- The fields of a table. -/
def form : Form where
  title := "table"
  strict := true
  slots := [
    .of "placed" .required Decode.whole,
    .of "rows" .required (list Row.decode)]

/-- A table from its document. -/
def decode : Decoder Table := fun draft => do
  let fields ← form.openDraft .value draft
  return {
    placed := ← fields.get "placed" Decode.whole
    rows := ← fields.get "rows" (list Row.decode) }

/-- The text that a table is kept as. -/
def toText (table : Table) : String := table.toJson.canonical

/-- The table that a text keeps. -/
def ofText? (content : String) : Option Table :=
  match Json.parse? content with
  | .error _ => none
  | .ok value =>
    match decode value.toDraft with
    | .ok table => some table
    | .error _ => none

end Table

end RunLedger
