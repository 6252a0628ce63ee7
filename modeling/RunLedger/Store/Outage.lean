/-
  Store/Outage.lean --- a store that can be unreachable.

  WHAT THIS FILE IS FOR.  A store may stop answering at any time, also in the
  middle of a request that has already recorded something.  While a store is
  unreachable every call of it fails and nothing in it changes.
-/
import RunLedger.Store.Basic

set_option autoImplicit false

namespace RunLedger

/-- A store together with whether it can be reached. -/
structure Outage (σ : Type) where
  store : σ
  offline : Bool
  deriving DecidableEq, Repr, Inhabited

namespace Outage

/-- A store that can be reached. -/
def online {σ : Type} (store : σ) : Outage σ := ⟨store, false⟩

/-- A call that fails while the store cannot be reached. -/
def guard {σ α : Type} (call : StoreM σ α) : StoreM (Outage σ) α := fun outage =>
  if outage.offline then (.error (.corruptRecord 0 .unreachable), outage)
  else
    let (answer, store) := call outage.store
    (answer, { outage with store := store })

instance {σ : Type} [EventStore σ] : EventStore (Outage σ) where
  append event := guard (EventStore.append event)
  readRun runId := guard (EventStore.readRun runId)
  readAll := guard EventStore.readAll
  readChain runId := guard (EventStore.readChain runId)

end Outage

end RunLedger
