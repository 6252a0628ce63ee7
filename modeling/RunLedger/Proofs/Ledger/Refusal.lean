/-
  Proofs/Ledger/Refusal.lean --- what a refused request leaves behind.

  WHAT THIS FILE IS FOR.  A request reads first and records last.  So what refuses
  it, unless an outcome comes with the refusal, comes before anything is recorded,
  and the store is left as listings, and the append that failed, leave it.  This is
  said piece by piece as well: reading may come first, and behind what has been
  recorded nothing may be refused any more.
-/
import RunLedger.Proofs.Approval.Outcome

set_option autoImplicit false

namespace RunLedger.Ledger

variable {σ α β : Type} {step : σ → σ → Prop}

/-- What refuses the request, without an outcome, leaves the store by steps of a kind. -/
def KeepsIfRefused (step : σ → σ → Prop) (x : LedgerM σ α) : Prop :=
  ∀ ledger error next, x ledger = (.error error, next) → error.IsBare →
    Relation.ReflTransGen step ledger.store next.store

namespace KeepsIfRefused

variable {x : LedgerM σ α} {f : α → LedgerM σ β}

theorem throw (error : RequestError) : KeepsIfRefused step (throw error : LedgerM σ α) := by
  intro ledger error' next hrun _
  obtain rfl := (Prod.mk.inj hrun).2
  exact .refl

/-- Reading may come before a request that keeps the store. -/
theorem bind (hx : ChangesBy step x) (hf : ∀ a, KeepsIfRefused step (f a)) :
    KeepsIfRefused step (x >>= f) := by
  intro ledger error next hrun hbare
  rcases bind_eq_error_iff.mp hrun with hfirst | ⟨a, middle, hfirst, hrest⟩
  · exact hx.of_run hfirst
  · exact (hx.of_run hfirst).trans (hf a middle error next hrest hbare)

/-- An error may be told in another way, as long as it comes without an outcome only if it did
before. -/
theorem adapt {g : RequestError → RequestError} (hx : KeepsIfRefused step x)
    (hg : ∀ error, (g error).IsBare → error.IsBare) :
    KeepsIfRefused step (ExceptT.adapt g x : LedgerM σ α) := by
  intro ledger error next hrun hbare
  obtain ⟨hanswer, hnext⟩ := Prod.mk.inj hrun
  rcases hrefused : x ledger with ⟨error' | a, next'⟩
  · rw [hrefused] at hanswer hnext
    obtain rfl := Except.error.inj hanswer
    obtain rfl : next' = next := hnext
    exact hx ledger error' next' hrefused (hg error' hbare)
  · rw [hrefused] at hanswer
    cases hanswer

/-- What comes behind a request that keeps the store must not be refused without an outcome. -/
theorem bind_answered (hx : KeepsIfRefused step x)
    (hf : ∀ a ledger error next, f a ledger = (.error error, next) → ¬ error.IsBare) :
    KeepsIfRefused step (x >>= f) := by
  intro ledger error next hrun hbare
  rcases bind_eq_error_iff.mp hrun with hfirst | ⟨a, middle, -, hrest⟩
  · exact hx ledger error next hfirst hbare
  · exact absurd hbare (hf a middle error next hrest)

end KeepsIfRefused

variable [EventStore σ]

/-- Listings, and appends that fail, change a store by steps of a kind. -/
structure QuietOf (σ : Type) [EventStore σ] (step : σ → σ → Prop) : Prop
    extends ReadsOf σ step where
  append : ∀ event, KeepsIfRefused step (call (EventStore.append event : StoreM σ _))

/-- Behind a recorded answer nothing is refused without the outcome. -/
theorem not_isBare_of_conclude {strategies : Strategies σ} {around : Surroundings}
    {target recorded : Record} {before : RunStatus} {answer : Answer} {ledger next : Ledger σ}
    {error : RequestError}
    (h : conclude strategies around target recorded before answer ledger = (.error error, next)) :
    ¬ error.IsBare := by
  obtain ⟨outcome, houtcome, -⟩ :=
    conclude_outcome strategies around target recorded before answer ledger
  rw [h] at houtcome
  have hsome : error.outcome? = some outcome := houtcome
  intro hbare
  rw [RequestError.IsBare, hsome] at hbare
  cases hbare

namespace QuietOf

variable (h : QuietOf σ step)

include h

theorem submit (event : Event) : KeepsIfRefused step (Ledger.submit event : LedgerM σ _) := by
  unfold Ledger.submit
  dsimp only
  split
  · apply KeepsIfRefused.bind (h.readRun _)
    intro history
    split
    · exact h.append _
    · exact .throw _
  · exact .throw _

theorem submitDocument (value : Json) :
    KeepsIfRefused step (Ledger.submitDocument value : LedgerM σ _) := by
  unfold Ledger.submitDocument
  split
  · exact h.submit _
  · exact .throw _

theorem register (around : Surroundings) (request : ApprovalRequest) :
    KeepsIfRefused step (Ledger.register around request : LedgerM σ _) := by
  have hbare (error : RequestError)
      (hexists : (requestExists (Text.trim request.decisionId) error).IsBare) : error.IsBare := by
    unfold requestExists at hexists
    split at hexists
    · rfl
    · exact hexists
  have hclock : ChangesBy step (readClock around : LedgerM σ _) := fun _ => .refl
  have htoken : ChangesBy step (drawToken around : LedgerM σ _) := fun _ => .refl
  unfold Ledger.register
  dsimp only
  split
  · rw [throw_bind]
    exact .throw _
  · apply KeepsIfRefused.bind (h.recordsOfDecision _).changes
    intro records
    apply KeepsIfRefused.bind (Runs.refuseRepetition _ records).changes
    intro _
    apply KeepsIfRefused.bind (h.readRun _)
    intro history
    apply KeepsIfRefused.bind hclock
    intro now
    apply KeepsIfRefused.bind htoken
    intro token
    apply KeepsIfRefused.bind_answered ((h.submit _).adapt hbare)
    intro recorded ledger error next hreturn
    cases (Prod.mk.inj hreturn).1

theorem recordAnswer (around : Surroundings) (eventId : String) (resolution : Resolution) :
    KeepsIfRefused step (Ledger.recordAnswer around eventId resolution : LedgerM σ _) := by
  have hclock : ChangesBy step (readClock around : LedgerM σ _) := fun _ => .refl
  have htoken : ChangesBy step (drawToken around : LedgerM σ _) := fun _ => .refl
  apply KeepsIfRefused.bind (h.openRequest eventId).changes
  rintro ⟨request, history, before⟩
  apply KeepsIfRefused.bind hclock
  intro now
  apply KeepsIfRefused.bind htoken
  intro token
  apply KeepsIfRefused.bind_answered (h.submit _)
  intro recorded ledger error next hreturn
  cases (Prod.mk.inj hreturn).1

/-- What refuses to answer a request, and comes without an outcome, leaves the store as listings and
the append that failed leave it. -/
theorem resolve (strategies : Strategies σ) (around : Surroundings) (target : ApprovalTarget)
    (resolution : Resolution) :
    KeepsIfRefused step (Ledger.resolve strategies around target resolution) := by
  apply KeepsIfRefused.bind (h.targetEvent target).changes
  intro eventId
  apply KeepsIfRefused.bind_answered (h.recordAnswer around eventId resolution)
  rintro ⟨request, recorded, before⟩ ledger error next hrefused
  exact not_isBare_of_conclude hrefused

end QuietOf

end RunLedger.Ledger
