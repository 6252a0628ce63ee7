/-
  Proofs/Ledger/Operation.lean --- sequences of requests to a ledger.

  WHAT THIS FILE IS FOR.  What is said of a ledger is said of every ledger that
  some requests, in any order, have made of a fresh one.  `Operation` lists the
  requests that put something on record, each with all that the caller may
  choose, and `Ledger.after` and `Ledger.calls` perform them one after the other.
  A request that is refused is performed as well, with what it did before.
-/
import RunLedger.Proofs.Ledger.Request
import RunLedger.Store.Memory

set_option autoImplicit false

namespace RunLedger

open RunLedger.Time (Instant)

/-- A request that puts something on record. -/
inductive Operation (σ : Type) where
  /-- record an event -/
  | submit (event : Event)
  /-- record the event that a document stands for -/
  | submitDocument (value : Json)
  /-- ask for an approval -/
  | register (around : Surroundings) (request : ApprovalRequest)
  /-- answer a request, with strategies that describe what follows -/
  | resolve (strategies : Strategies σ) (describe : strategies.OnlyDescribe)
      (around : Surroundings) (target : ApprovalTarget) (resolution : Resolution)

/-- What a request is answered with. -/
inductive Reply where
  | recorded (r : Record)
  | registered (registration : Registration)
  | resolved (outcome : Outcome)
  deriving DecidableEq, Repr

variable {σ : Type} [EventStore σ]

namespace Operation

/-- Performs a request. -/
def perform : Operation σ → LedgerM σ Reply
  | submit event => do return .recorded (← Ledger.submit event)
  | submitDocument value => do return .recorded (← Ledger.submitDocument value)
  | register around request => do return .registered (← Ledger.register around request)
  | resolve strategies _ around target resolution => do
    return .resolved (← Ledger.resolve strategies around target resolution)

/-- The times that come with the request are of a kind: those of the event that is handed in, or that
its document gives, those that the clock shows, and those that strategies describe events with. -/
def DatedBy (dates : Instant → Prop) : Operation σ → Prop
  | submit event => event.DatedBy dates
  | submitDocument value => ∀ event, Event.ofSubmission? value = .ok event → event.DatedBy dates
  | register around _ => ∀ n, dates (around.now n)
  | resolve strategies _ around _ _ => (∀ n, dates (around.now n)) ∧ strategies.DatedBy dates

omit [EventStore σ] in
theorem datedBy_any (operation : Operation σ) : operation.DatedBy fun _ => True := by
  cases operation with
  | submit event => exact event.datedBy_any
  | submitDocument value => exact fun event _ => event.datedBy_any
  | register around request => exact fun _ => trivial
  | resolve strategies describe around target resolution =>
    exact ⟨fun _ => trivial, strategies.datedBy_any⟩

/-- A request changes the store by the steps that submissions make. -/
theorem changesBy_of_datedBy {step : σ → σ → Prop} {dates : Instant → Prop}
    (h : Ledger.DatedStepsOf σ step dates) {operation : Operation σ}
    (hdated : operation.DatedBy dates) : Ledger.ChangesBy step operation.perform := by
  cases operation with
  | submit event => exact ((h.runs_submit hdated).bind fun _ => .pure _).changes
  | submitDocument value =>
    have hsubmit : Ledger.Runs step RequestError.IsBare
        (Ledger.submitDocument value : LedgerM σ _) := by
      unfold Ledger.submitDocument
      split
      · rename_i event hvalue
        exact h.runs_submit (hdated event hvalue)
      · exact .throw rfl
    exact (hsubmit.bind fun _ => .pure _).changes
  | register around request => exact ((h.register hdated request).bind fun _ => .pure _).changes
  | resolve strategies describe around target resolution =>
    have hresolve := h.resolve hdated.1 (describe.changeBy step) hdated.2 target resolution
    exact (hresolve.bind fun _ => .pure _).changes

theorem changesBy {step : σ → σ → Prop} (h : Ledger.StepsOf σ step) (operation : Operation σ) :
    Ledger.ChangesBy step operation.perform :=
  changesBy_of_datedBy h.dated operation.datedBy_any

end Operation

/-- A request together with the ledger that it finds. -/
structure Call (σ : Type) where
  ledger : Ledger σ
  operation : Operation σ

namespace Call

/-- What the request is answered with. -/
def answer (call : Call σ) : Except RequestError Reply :=
  (call.operation.perform call.ledger).1

/-- The ledger that the request leaves behind. -/
def next (call : Call σ) : Ledger σ :=
  (call.operation.perform call.ledger).2

theorem next_submit (event : Event) (ledger : Ledger σ) :
    (Call.mk ledger (.submit event)).next = (Ledger.submit event ledger).2 := by
  simp only [next, Operation.perform, bind_apply]
  rcases Ledger.submit event ledger with ⟨error | r, next⟩ <;> rfl

theorem next_resolve (strategies : Strategies σ) (describe : strategies.OnlyDescribe)
    (around : Surroundings) (target : ApprovalTarget) (resolution : Resolution)
    (ledger : Ledger σ) :
    (Call.mk ledger (.resolve strategies describe around target resolution)).next =
      (Ledger.resolve strategies around target resolution ledger).2 := by
  simp only [next, Operation.perform, bind_apply]
  rcases Ledger.resolve strategies around target resolution ledger with ⟨error | r, next⟩ <;> rfl

end Call

namespace Ledger

/-- A ledger after some requests. -/
def after (ledger : Ledger σ) : List (Operation σ) → Ledger σ
  | [] => ledger
  | operation :: rest => (Call.mk ledger operation).next.after rest

/-- Some requests with the ledgers that they find. -/
def calls (ledger : Ledger σ) : List (Operation σ) → List (Call σ)
  | [] => []
  | operation :: rest => ⟨ledger, operation⟩ :: (Call.mk ledger operation).next.calls rest

theorem after_append (ledger : Ledger σ) (first rest : List (Operation σ)) :
    ledger.after (first ++ rest) = (ledger.after first).after rest := by
  induction first generalizing ledger with
  | nil => rfl
  | cons operation first ih => exact ih _

theorem calls_append (ledger : Ledger σ) (first rest : List (Operation σ)) :
    ledger.calls (first ++ rest) = ledger.calls first ++ (ledger.after first).calls rest := by
  induction first generalizing ledger with
  | nil => rfl
  | cons operation first ih => exact congrArg (List.cons _) (ih _)

/-- Requests change the store by the steps that submissions make. -/
theorem reflTransGen_after_of_datedBy {step : σ → σ → Prop} {dates : Instant → Prop}
    (h : DatedStepsOf σ step dates) (ledger : Ledger σ) {operations : List (Operation σ)}
    (hdated : ∀ operation ∈ operations, operation.DatedBy dates) :
    Relation.ReflTransGen step ledger.store (ledger.after operations).store := by
  induction operations generalizing ledger with
  | nil => exact .refl
  | cons operation rest ih =>
    obtain ⟨hfirst, hrest⟩ := List.forall_mem_cons.mp hdated
    exact (Operation.changesBy_of_datedBy h hfirst ledger).trans (ih _ hrest)

theorem reflTransGen_after {step : σ → σ → Prop} (h : StepsOf σ step) (ledger : Ledger σ)
    (operations : List (Operation σ)) :
    Relation.ReflTransGen step ledger.store (ledger.after operations).store :=
  reflTransGen_after_of_datedBy h.dated ledger fun operation _ => operation.datedBy_any

/-- A fresh ledger in memory. -/
def inMemory : Ledger MemoryStore := .on .empty

end Ledger

end RunLedger
