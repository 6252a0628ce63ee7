/-
  Store/Durable.lean --- a store that outlives the program.

  WHAT THIS FILE IS FOR.  A durable store is a handle on a table.  The table is
  what lasts; the handle remembers the heads of the runs it has appended to, and
  reads a head from the table the first time it needs it.  Opening the table
  again gives a handle that remembers nothing.  Several handles may be open on
  one table.
-/
import RunLedger.Store.Table

set_option autoImplicit false

namespace RunLedger

/-- What a handle remembers: the heads of runs. -/
abbrev Handle : Type := List (String × RunTip)

namespace Handle

/-- A handle that remembers nothing. -/
def fresh : Handle := []

/-- The handle with the head of a run set. -/
def remember (runId : String) (head : RunTip) : Handle → Handle
  | [] => [(runId, head)]
  | (key, old) :: rest =>
    if runId = key then (key, head) :: rest else (key, old) :: remember runId head rest

/-- The head of a run: remembered, or read from the table. -/
def head (handle : Handle) (table : Table) (runId : String) : Except StoreError RunTip :=
  match handle.lookup runId with
  | some head => .ok head
  | none => table.head runId

end Handle

/-- A durable store: a table, and the handle through which it is used. -/
structure DurableStore where
  table : Table
  handle : Handle
  deriving DecidableEq, Repr, Inhabited

namespace DurableStore

/-- A table that has just been opened. -/
def ofTable (table : Table) : DurableStore := ⟨table, .fresh⟩

/-- The store opened again. -/
def reopen (store : DurableStore) : DurableStore := .ofTable store.table

/-- The head of a run, which is remembered from then on. -/
def learnHead (runId : String) (store : DurableStore) : Except StoreError RunTip × DurableStore :=
  match store.handle.head store.table runId with
  | .error fault => (.error fault, store)
  | .ok head => (.ok head, { store with handle := store.handle.remember runId head })

/-- Records an event, unless the table holds its identifier in its run.  The head of the run is
remembered even when the event is refused. -/
def append (event : Event) (store : DurableStore) : Except StoreError Record × DurableStore :=
  let event := event.normalized
  match store.learnHead event.runId with
  | (.error fault, store) => (.error fault, store)
  | (.ok head, known) =>
    match store.table.nextPlace? with
    | none => (.error (.table .full), known)
    | some place =>
      if store.table.holds event.runId event.id then
        (.error (.duplicateEvent event.id event.runId), known)
      else
        let r := head.recordNext place.toNat event
        (.ok r,
          { table := ⟨store.table.rows ++ [.ofRecord r], place⟩
            handle := store.handle.remember event.runId (head.after r) })

instance : EventStore DurableStore where
  append event := fun store => store.append event
  readRun runId := fun store => (store.table.readRun runId, store)
  readAll := fun store => (store.table.readAll, store)
  readChain runId := fun store => (store.table.readChain runId, store)

end DurableStore

end RunLedger
