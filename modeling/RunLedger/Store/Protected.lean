/-
  Store/Protected.lean --- a durable store that may be for reading only.

  WHAT THIS FILE IS FOR.  The file of a table can be open to be read and closed
  to be written.  Then the records can be listed as ever, and every event is
  refused: not for what it is, so whether the table would have had room for it,
  or holds its identifier already, does not come up.
-/
import RunLedger.Store.Durable

set_option autoImplicit false

namespace RunLedger

/-- A durable store together with whether it can be read only. -/
structure ProtectedStore where
  store : DurableStore
  readOnly : Bool
  deriving DecidableEq, Repr, Inhabited

namespace ProtectedStore

/-- A table that has just been opened. -/
def ofTable (table : Table) (readOnly : Bool) : ProtectedStore := ⟨.ofTable table, readOnly⟩

/-- Records an event, unless the store can be read only.  What has to be read of its run is read
even so. -/
def append (event : Event) (guarded : ProtectedStore) :
    Except StoreError Record × ProtectedStore :=
  if guarded.readOnly then
    match guarded.store.learnHead event.normalized.runId with
    | (.error fault, store) => (.error fault, { guarded with store := store })
    | (.ok _, store) => (.error (.table .readOnly), { guarded with store := store })
  else
    let (answer, store) := guarded.store.append event
    (answer, { guarded with store := store })

/-- A listing of the store. -/
def listing {α : Type} (call : StoreM DurableStore α) : StoreM ProtectedStore α := fun guarded =>
  let (answer, store) := call guarded.store
  (answer, { guarded with store := store })

instance : EventStore ProtectedStore where
  append event := fun guarded => guarded.append event
  readRun runId := listing (EventStore.readRun runId)
  readAll := listing EventStore.readAll
  readChain runId := listing (EventStore.readChain runId)

end ProtectedStore

end RunLedger
