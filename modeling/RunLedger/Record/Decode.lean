/-
  Record/Decode.lean --- reading a record from its document.

  WHAT THIS FILE IS FOR.  Records are exported as documents and can be checked
  again from them.  Unlike those of an event, unknown fields of a record are
  passed over.
-/
import RunLedger.Record.Basic
import RunLedger.Event.Decode

set_option autoImplicit false

namespace RunLedger.Record

open RunLedger.Decode

/-- The fields of a record. -/
def form (origin : Origin) : Form where
  title := "struct StoredEvent"
  strict := false
  slots := [
    .of "sequence" .required nat,
    .of "payload" .required (Event.decode origin),
    .of "integrity_warning" .required bool,
    .of "prev_hash" .optional (optional text),
    .of "hash" .required text]

/-- A record from its document. -/
def decode (origin : Origin) : Decoder Record := fun draft => do
  let fields ← (form origin).openDraft origin draft
  return {
    sequence := ← fields.get "sequence" nat
    event := ← fields.get "payload" (Event.decode origin)
    integrityWarning := ← fields.get "integrity_warning" bool
    prevHash := ← fields.getD "prev_hash" (optional text) none
    hash := ← fields.get "hash" text }

/-- A record from a value. -/
def ofJson? (value : Json) : Except Fault Record :=
  decode .value value.toDraft

end RunLedger.Record
