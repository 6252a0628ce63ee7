/-
  Proofs/Store/Faltering.lean --- a store of which any call may fail.

  WHAT THIS FILE IS FOR.  A store may fail at any call, for reasons of its own and
  without having done anything.  `Falters` compares such a store with the one that
  it keeps, which never fails in this way: each call either is the call of the
  store kept, or fails and leaves that store alone.  `Unsteady` is a store that
  fails by a schedule, and every schedule makes such a store.
-/
import RunLedger.Store.Basic

set_option autoImplicit false

namespace RunLedger

variable {σ τ α : Type}

/-- The call is `whole`, as far as the store kept is concerned, or fails and leaves that store as
it is. -/
def FaltersAs (kept : σ → τ) (c : StoreM σ α) (whole : StoreM τ α) : Prop :=
  ∀ store, ((c store).1, kept (c store).2) = whole (kept store) ∨
    ((∃ fault, (c store).1 = .error fault) ∧ kept (c store).2 = kept store)

namespace FaltersAs

variable {kept : σ → τ} {c : StoreM σ α} {whole : StoreM τ α} {store next : σ}

theorem answered (h : FaltersAs kept c whole) {a : α} (hrun : c store = (.ok a, next)) :
    whole (kept store) = (.ok a, kept next) := by
  have hstore := h store
  rw [hrun] at hstore
  rcases hstore with hwhole | ⟨⟨fault, hfault⟩, -⟩
  · exact hwhole.symm
  · cases hfault

theorem refused (h : FaltersAs kept c whole) {fault : StoreError}
    (hrun : c store = (.error fault, next)) :
    whole (kept store) = (.error fault, kept next) ∨ kept next = kept store := by
  have hstore := h store
  rw [hrun] at hstore
  rcases hstore with hwhole | ⟨-, hkept⟩
  · exact .inl hwhole.symm
  · exact .inr hkept

/-- A call that leaves the store kept as it is does so also when it fails. -/
theorem kept_eq (h : FaltersAs kept c whole) (hwhole : ∀ store, (whole store).2 = store)
    (store : σ) : kept (c store).2 = kept store := by
  rcases h store with hsame | ⟨-, hkept⟩
  · have hstore := hwhole (kept store)
    rwa [← hsame] at hstore
  · exact hkept

end FaltersAs

/-- Any call of a store with states `σ` may fail, and else does what the store that it keeps
does. -/
structure Falters (σ τ : Type) [EventStore σ] [EventStore τ] (kept : σ → τ) : Prop where
  append : ∀ event, FaltersAs kept (EventStore.append event) (EventStore.append event)
  readRun : ∀ runId, FaltersAs kept (EventStore.readRun runId) (EventStore.readRun runId)
  readAll : FaltersAs kept EventStore.readAll EventStore.readAll
  readChain : ∀ runId, FaltersAs kept (EventStore.readChain runId) (EventStore.readChain runId)

/-- Listings, and appends that fail, leave a store as it is. -/
structure Quiet (τ : Type) [EventStore τ] : Prop where
  readRun : ∀ runId store, ((EventStore.readRun runId : StoreM τ _) store).2 = store
  readAll : ∀ store, ((EventStore.readAll : StoreM τ _) store).2 = store
  append : ∀ event fault store next,
    (EventStore.append event : StoreM τ _) store = (.error fault, next) → next = store

/-! ## A store that fails by a schedule -/

/-- A store, how many calls of it have been made, and which calls fail with what. -/
structure Unsteady (τ : Type) where
  store : τ
  calls : Nat
  fault : Nat → Option StoreError

namespace Unsteady

/-- A call, unless it is its turn to fail. -/
def guard (c : StoreM τ α) : StoreM (Unsteady τ) α := fun unsteady =>
  match unsteady.fault unsteady.calls with
  | some fault => (.error fault, { unsteady with calls := unsteady.calls + 1 })
  | none =>
    let (answer, store) := c unsteady.store
    (answer, { unsteady with store := store, calls := unsteady.calls + 1 })

instance [EventStore τ] : EventStore (Unsteady τ) where
  append event := guard (EventStore.append event)
  readRun runId := guard (EventStore.readRun runId)
  readAll := guard EventStore.readAll
  readChain runId := guard (EventStore.readChain runId)

theorem faltersAs_guard (c : StoreM τ α) : FaltersAs store (guard c) c := by
  intro unsteady
  unfold guard
  cases unsteady.fault unsteady.calls with
  | some fault => exact .inr ⟨⟨fault, rfl⟩, rfl⟩
  | none => exact .inl rfl

/-- Whatever the schedule, the store does what the store that it keeps does, or fails. -/
theorem falters [EventStore τ] : Falters (Unsteady τ) τ store where
  append event := faltersAs_guard (EventStore.append event)
  readRun runId := faltersAs_guard (EventStore.readRun runId)
  readAll := faltersAs_guard EventStore.readAll
  readChain runId := faltersAs_guard (EventStore.readChain runId)

end Unsteady

end RunLedger
