/-
  Ledger/Basic.lean --- the ledger: a store behind a gate.

  WHAT THIS FILE IS FOR.  Every event that the ledger records has been trimmed,
  checked for problems and passed by the gate against the history of its run as
  the store holds it at that moment.

  A request is served from what surrounds it, the clock and a source of tokens,
  and changes what the ledger keeps: its store, and the count of tokens drawn.
  As with calls of a store, what a request did before it failed stays done.
-/
import RunLedger.Ledger.Error
import RunLedger.Store.Basic

set_option autoImplicit false

namespace RunLedger

open RunLedger.Time (Instant)

/-- What surrounds a request. -/
structure Surroundings where
  /-- what the clock shows when the first token is about to be drawn, the second and so on; it may
  stand still or run backwards -/
  now : Nat → Instant
  /-- the token drawn first, second and so on -/
  token : Nat → String

/-- What a ledger keeps: its store, and how many tokens have been drawn. -/
structure Ledger (σ : Type) where
  store : σ
  drawn : Nat
  deriving DecidableEq, Repr, Inhabited

/-- A request to a ledger on a store with states `σ`. -/
abbrev LedgerM (σ α : Type) : Type := ExceptT RequestError (StateM (Ledger σ)) α

namespace Ledger

variable {σ α : Type}

/-- A ledger on a store. -/
def on (store : σ) : Ledger σ := ⟨store, 0⟩

/-- A call of the store. -/
def call (c : StoreM σ α) : LedgerM σ α := fun ledger =>
  match c ledger.store with
  | (.ok a, store) => (.ok a, { ledger with store := store })
  | (.error error, store) => (.error (.store error), { ledger with store := store })

/-- A request whose failure is an answer like any other. -/
def attempt (request : LedgerM σ α) : LedgerM σ (Except RequestError α) := fun ledger =>
  let (answer, ledger) := request ledger
  (.ok answer, ledger)

/-- Reads the clock, before a token is drawn. -/
def readClock (around : Surroundings) : LedgerM σ Instant := fun ledger =>
  (.ok (around.now (ledger.drawn + 1)), ledger)

/-- Draws a token. -/
def drawToken (around : Surroundings) : LedgerM σ String := fun ledger =>
  (.ok (around.token (ledger.drawn + 1)), { ledger with drawn := ledger.drawn + 1 })

variable [EventStore σ]

/-- Records an event, if it has no problems and breaks no rules. -/
def submit (event : Event) : LedgerM σ Record := do
  let event := event.normalized
  match event.problems with
  | [] =>
    let history ← call (EventStore.readRun event.runId)
    match Gate.violations event history with
    | [] => call (EventStore.append event)
    | violations => throw (.rules violations)
  | problems => throw (.store (.schemaValidation problems))

/-- Records the event that a document stands for. -/
def submitDocument (value : Json) : LedgerM σ Record :=
  match Event.ofSubmission? value with
  | .ok event => submit event
  | .error problems => throw (.store (.schemaValidation problems))

/-- Where the run with these records stands. -/
def stateOf (records : List Record) : LedgerM σ RunState :=
  match RunState.ofRecords records with
  | .ok state => return state
  | .error conflict => throw (.conflict conflict)

/-- Where a run stands. -/
def runState (runId : String) : LedgerM σ RunState := do
  let records ← call (EventStore.readRun runId)
  if records.isEmpty then throw (.runNotFound runId)
  stateOf records

end Ledger

end RunLedger
