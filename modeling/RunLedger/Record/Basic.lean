/-
  Record/Basic.lean --- events as the ledger records them.

  WHAT THIS FILE IS FOR.  A record is an event together with its place in the
  ledger, a mark if its time runs backwards, and two digests: the one of the
  record before it in its run, and its own.  The digest of a record covers
  everything in it except its place, so a record cannot be changed without its
  digest changing, and no record before it without breaking the link.
-/
import RunLedger.Event.Payload
import RunLedger.Json.Canonical
import RunLedger.Digest.Sha256

set_option autoImplicit false

namespace RunLedger

open RunLedger.Digest (sha256Text)
open RunLedger.Time (Instant)

/-- The document whose digest identifies a record. -/
def envelope (runId eventId : String) (timestamp : Instant) (payload : Json)
    (integrityWarning : Bool) (prevHash : Option String) : Json :=
  .object [
    ("run_id", .text runId),
    ("event_id", .text eventId),
    ("timestamp", .instant timestamp),
    ("payload", payload),
    ("integrity_warning", .bool integrityWarning),
    ("prev_hash", .optionalText prevHash)]

/-- The digest of a record: that of the canonical text of its envelope. -/
def recordDigest (runId eventId : String) (timestamp : Instant) (payload : Json)
    (integrityWarning : Bool) (prevHash : Option String) : String :=
  sha256Text (envelope runId eventId timestamp payload integrityWarning prevHash).canonical

namespace Event

/-- The envelope of an event that is linked to the record with the digest `prevHash`. -/
def envelope (event : Event) (integrityWarning : Bool) (prevHash : Option String) : Json :=
  RunLedger.envelope event.runId event.id event.timestamp event.payload integrityWarning prevHash

/-- The digest of an event that is linked to the record with the digest `prevHash`. -/
def hash (event : Event) (integrityWarning : Bool) (prevHash : Option String) : String :=
  recordDigest event.runId event.id event.timestamp event.payload integrityWarning prevHash

end Event

/-- A record of the ledger. -/
structure Record where
  /-- the place in the ledger -/
  sequence : Nat
  /-- the event as it was hashed -/
  event : Event
  /-- the event is earlier than one recorded before it in its run -/
  integrityWarning : Bool
  /-- the digest of the record before it in its run -/
  prevHash : Option String
  /-- the digest of this record -/
  hash : String
  deriving DecidableEq, Repr, Inhabited

namespace Record

/-- The record of an event, with its digest computed. -/
def ofEvent (sequence : Nat) (event : Event) (integrityWarning : Bool) (prevHash : Option String) :
    Record :=
  ⟨sequence, event, integrityWarning, prevHash, event.hash integrityWarning prevHash⟩

/-- The digest that the record should have when it is linked to `prevHash`. -/
def expectedHash (r : Record) (prevHash : Option String) : String :=
  r.event.hash r.integrityWarning prevHash

/-- The run that the record's event belongs to. -/
def runId (r : Record) : String := r.event.runId

/-- The identifier of the record's event. -/
def eventId (r : Record) : String := r.event.id

/-- The time of the record's event. -/
def timestamp (r : Record) : Instant := r.event.timestamp

/-- The document of a record. -/
def toJson (r : Record) : Json :=
  .object [
    ("sequence", .nat r.sequence),
    ("payload", r.event.payload),
    ("integrity_warning", .bool r.integrityWarning),
    ("prev_hash", .optionalText r.prevHash),
    ("hash", .text r.hash)]

/-! ## Read order -/

/-- The first record is read no later than the second: records are read by time, and those of
one time by their place. -/
def readsBefore (a b : Record) : Bool :=
  decide (a.timestamp < b.timestamp) ||
    (decide (a.timestamp = b.timestamp) && decide (a.sequence ≤ b.sequence))

/-- Records in read order. -/
def sortForReading (records : List Record) : List Record :=
  records.mergeSort readsBefore

end Record

end RunLedger
