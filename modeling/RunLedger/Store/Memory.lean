/-
  Store/Memory.lean --- a store that lives as long as the program.

  WHAT THIS FILE IS FOR.  Records are kept run by run in the order of their
  places, with the identifiers in use and the head of each run beside them, so
  that appending does not look at the history.  Listings put the records in read
  order when they are asked for.
-/
import RunLedger.Store.Basic

set_option autoImplicit false

namespace RunLedger

/-- The log of a run. -/
structure RunJournal where
  /-- the identifiers in use -/
  ids : List String
  /-- the records in the order of their places -/
  records : List Record
  head : RunTip
  deriving DecidableEq, Repr, Inhabited

namespace RunJournal

/-- The log of a run without records. -/
def empty : RunJournal := ⟨[], [], .empty⟩

/-- The log behind one more record. -/
def push (log : RunJournal) (r : Record) : RunJournal :=
  ⟨r.eventId :: log.ids, log.records ++ [r], log.head.after r⟩

end RunJournal

/-- A store in memory: the place given last, and the logs of the runs by their identifiers. -/
structure MemoryStore where
  sequence : Nat
  runs : List (String × RunJournal)
  deriving DecidableEq, Repr, Inhabited

namespace MemoryStore

/-- A store without records. -/
def empty : MemoryStore := ⟨0, []⟩

/-- The log of a run. -/
def run (store : MemoryStore) (runId : String) : RunJournal :=
  (store.runs.lookup runId).getD .empty

/-- The logs with the log of one run replaced, or added if there was none. -/
def putRun (runId : String) (log : RunJournal) :
    List (String × RunJournal) → List (String × RunJournal)
  | [] => [(runId, log)]
  | (key, old) :: rest =>
    if runId = key then (key, log) :: rest else (key, old) :: putRun runId log rest

/-- All records, run by run. -/
def records (store : MemoryStore) : List Record :=
  store.runs.flatMap fun (_, log) => log.records

/-- Records an event, unless its identifier is in use in its run. -/
def append (event : Event) (store : MemoryStore) : Except StoreError Record × MemoryStore :=
  let event := event.normalized
  let log := store.run event.runId
  if log.ids.contains event.id then (.error (.duplicateEvent event.id event.runId), store)
  else
    let r := log.head.recordNext (store.sequence + 1) event
    (.ok r, ⟨store.sequence + 1, putRun event.runId (log.push r) store.runs⟩)

instance : EventStore MemoryStore where
  append event := fun store => store.append event
  readRun runId := fun store => (.ok (Record.sortForReading (store.run runId).records), store)
  readAll := fun store => (.ok (Record.sortForReading store.records), store)
  readChain runId := fun store => (.ok (store.run runId).records, store)

end MemoryStore

end RunLedger
