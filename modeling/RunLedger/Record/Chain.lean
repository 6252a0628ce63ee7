/-
  Record/Chain.lean --- checking that records form a chain.

  WHAT THIS FILE IS FOR.  The records of a run are linked in the order in which
  they were appended: each carries the digest of the one before it, and its own
  digest covers that link.  Checking walks the records once and stops at the
  first that does not fit: by its place, by its link, or by its digest, in that
  order.
-/
import RunLedger.Record.Basic
import RunLedger.Store.Fault

set_option autoImplicit false

namespace RunLedger

namespace Record

/-- What is wrong with a record behind `previous`, the place and the digest of the record before
it, if any. -/
def breakAfter? (previous : Option (Nat × String)) (r : Record) : Option ChainBreak :=
  let link := previous.map Prod.snd
  if previous.any fun (sequence, _) => decide (r.sequence ≤ sequence) then some .outOfOrder
  else if r.prevHash ≠ link then some (.wrongLink r.prevHash link)
  else if r.hash ≠ r.expectedHash link then some (.wrongHash r.hash (r.expectedHash link))
  else none

/-- The first record that does not fit behind those before it, and what is wrong with it. -/
def firstBreak? : (previous : Option (Nat × String)) → List Record → Option (Record × ChainBreak)
  | _, [] => none
  | previous, r :: rest =>
    match breakAfter? previous r with
    | some found => some (r, found)
    | none => firstBreak? (some (r.sequence, r.hash)) rest

end Record

/-- Checks the records of a run, given in the order of their places. -/
def checkChain (records : List Record) : Except StoreError Unit :=
  match Record.firstBreak? none records with
  | some (r, found) => .error (.chainBroken r.runId r.eventId r.sequence found)
  | none => .ok ()

/-- What is known of a run whose chain has been checked: how many events it has, and the digest
of the last one. -/
structure ChainReport where
  runId : String
  eventCount : Nat
  headHash : Option String
  deriving DecidableEq, Repr, Inhabited

namespace ChainReport

/-- The report on the checked records of a run. -/
def ofRecords (runId : String) (records : List Record) : ChainReport :=
  ⟨runId, records.length, records.getLast?.map Record.hash⟩

/-- The document of a report. -/
def toJson (report : ChainReport) : Json :=
  .object [
    ("run_id", .text report.runId),
    ("event_count", .nat report.eventCount),
    ("head_hash", .optionalText report.headHash)]

end ChainReport

end RunLedger
