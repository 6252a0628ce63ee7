/-
  Store/Basic.lean --- what a store of records does.

  WHAT THIS FILE IS FOR.  A store accepts events and lists records.  It gives
  every accepted event the next place, refuses a second event with the same
  identifier in a run, marks events whose time runs backwards in their run
  without moving them, and links each to the one before it in its run.

  A call of a store may fail, and what it did to the store before it failed
  stays done.  So a call is a function of the state of the store to an answer
  and the state afterwards.
-/
import RunLedger.Record.Chain

set_option autoImplicit false

namespace RunLedger

open RunLedger.Time (Instant)

/-- A call of a store with states `σ`. -/
abbrev StoreM (σ α : Type) : Type := ExceptT StoreError (StateM σ) α

/-- A store with states `σ`. -/
class EventStore (σ : Type) where
  /-- records an event -/
  append : Event → StoreM σ Record
  /-- the records of a run in read order; of a run without records, none -/
  readRun : String → StoreM σ (List Record)
  /-- the records of all runs in read order -/
  readAll : StoreM σ (List Record)
  /-- the records of a run in the order of their places -/
  readChain : String → StoreM σ (List Record)

/-! ## What a store remembers of a run -/

/-- What appending to a run needs to know of it. -/
structure RunTip where
  /-- the latest time of the run, which need not be the last one recorded -/
  lastTimestamp : Option Instant
  /-- the digest of the record appended last -/
  lastHash : Option String
  deriving DecidableEq, Repr, Inhabited

namespace RunTip

/-- The head of a run without records. -/
def empty : RunTip := ⟨none, none⟩

/-- A time earlier than the latest one of the run. -/
def isLaterThan (head : RunTip) (timestamp : Instant) : Bool :=
  head.lastTimestamp.any fun last => decide (timestamp < last)

/-- The record that an event becomes behind this head. -/
def recordNext (head : RunTip) (sequence : Nat) (event : Event) : Record :=
  .ofEvent sequence event (head.isLaterThan event.timestamp) head.lastHash

/-- The head behind a record. -/
def after (head : RunTip) (r : Record) : RunTip where
  lastTimestamp :=
    match head.lastTimestamp with
    | some last => some (last.latest r.timestamp)
    | none => some r.timestamp
  lastHash := some r.hash

end RunTip

/-! ## Checking a store -/

/-- The runs of some records in the order of their identifiers, each once. -/
def runIdsOf (records : List Record) : List String :=
  ((records.map Record.runId).mergeSort fun a b => decide (a ≤ b)).eraseReps

/-- Checks the chain of one run. -/
def checkRun {σ : Type} [EventStore σ] (runId : String) : StoreM σ ChainReport := do
  let records ← EventStore.readChain runId
  match checkChain records with
  | .error fault => throw fault
  | .ok () => return .ofRecords runId records

/-- Checks the chains of some runs, up to the first that is broken. -/
def checkRuns {σ : Type} [EventStore σ] : List String → StoreM σ (List ChainReport)
  | [] => return []
  | runId :: rest => do
    let report ← checkRun runId
    let reports ← checkRuns rest
    return report :: reports

/-- Checks the chains of all runs in the order of their identifiers. -/
def checkAllRuns {σ : Type} [EventStore σ] : StoreM σ (List ChainReport) := do
  let records ← EventStore.readAll
  checkRuns (runIdsOf records)

end RunLedger
