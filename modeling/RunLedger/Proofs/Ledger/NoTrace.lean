/-
  Proofs/Ledger/NoTrace.lean --- a refused request leaves no trace.

  WHAT THIS FILE IS FOR.  A request may be refused at many points, and some of them
  come late: a durable store learns the head of a run before it finds that an event is
  there already, and keeps what it has learnt.  Nothing of that shows.  The listings
  are what they were, and whatever is asked later is answered as if the refused
  request had not been made.
-/
import RunLedger.Proofs.Ledger.Acceptance
import RunLedger.Proofs.Ledger.Alike
import RunLedger.Proofs.Ledger.Legible
import RunLedger.Proofs.Ledger.Refusal

set_option autoImplicit false

namespace RunLedger

/-! ## Strategies that see what a store answers -/

section

variable {σ : Type} [EventStore σ]

/-- What the strategies describe depends on no more than what a store, which `reopen` opens again,
answers when calls are made of it. -/
def Strategies.SeeAnswers (reopen : σ → σ) (strategies : Strategies σ) : Prop :=
  ∀ workflow strategy, strategies.find? workflow = some strategy → ∀ context s t,
    (∀ calls, answers reopen t calls = answers reopen s calls) →
      (strategy context t).1 = (strategy context s).1

/-- The strategies of the request, if it has any, see what the store answers. -/
def Operation.SeesAnswers (reopen : σ → σ) : Operation σ → Prop
  | .resolve strategies .. => strategies.SeeAnswers reopen
  | _ => True

theorem Operation.SeesAnswers.describesAlike {reopen : σ → σ} {same : σ → σ → Prop}
    (hcalls : CallsAlike σ same) (hreopen : ∀ s t, same s t → same (reopen s) (reopen t))
    {operation : Operation σ} (h : operation.SeesAnswers reopen) :
    operation.DescribesAlike same := by
  cases operation with
  | submit event => exact trivial
  | submitDocument value => exact trivial
  | register around request => exact trivial
  | resolve strategies describe around target resolution =>
    intro workflow strategy hfound context s t hsame
    refine ⟨h workflow strategy hfound context s t (hcalls.answers_eq hreopen hsame), ?_⟩
    rw [describe workflow strategy hfound, describe workflow strategy hfound]
    exact hsame

namespace Ledger

/-- Whatever is asked later, at any count of tokens: what the ledger `next` answers is what `ledger`
would have answered, and so are its listings and all that it tells then. -/
def NoTrace (allowed : Operation σ → Prop) (ledger next : Ledger σ) : Prop :=
  ∀ (drawn : Nat) (later : List (Operation σ)), (∀ operation ∈ later, allowed operation) →
    ((Ledger.mk next.store drawn).calls later).map Call.answer =
        ((Ledger.mk ledger.store drawn).calls later).map Call.answer ∧
      ∀ (α : Type) (inquiry : Inquiry α),
        (inquiry.perform ((Ledger.mk next.store drawn).after later)).1 =
          (inquiry.perform ((Ledger.mk ledger.store drawn).after later)).1

/-- Ledgers whose stores are alike differ by no trace. -/
theorem noTrace_of_alike {same : σ → σ → Prop} (hcalls : CallsAlike σ same)
    {allowed : Operation σ → Prop} (hallowed : ∀ operation, allowed operation →
      operation.DescribesAlike same) {ledger next : Ledger σ}
    (hsame : same ledger.store next.store) : NoTrace allowed ledger next := by
  intro drawn later hlater
  have hstart : Ledger.Alike same ⟨ledger.store, drawn⟩ ⟨next.store, drawn⟩ := ⟨hsame, rfl⟩
  obtain ⟨hanswers, hend⟩ := hcalls.calls_answer hstart later fun o ho => hallowed o (hlater o ho)
  exact ⟨hanswers, fun α inquiry => (hcalls.inquiry inquiry _ _ hend).1⟩

/-- What refuses a request, and comes without an outcome, leaves the store as listings and the
append that failed leave it. -/
theorem QuietOf.perform {step : σ → σ → Prop} (h : QuietOf σ step) (operation : Operation σ) :
    KeepsIfRefused step operation.perform := by
  have hanswered {α : Type} (f : α → Reply) (a : α) (ledger : Ledger σ) (error : RequestError)
      (next : Ledger σ) (hreturn : (pure (f a) : LedgerM σ Reply) ledger = (.error error, next)) :
      ¬ error.IsBare := by
    cases (Prod.mk.inj hreturn).1
  cases operation with
  | submit event => exact (h.submit event).bind_answered (hanswered _)
  | submitDocument value => exact (h.submitDocument value).bind_answered (hanswered _)
  | register around request => exact (h.register around request).bind_answered (hanswered _)
  | resolve strategies describe around target resolution =>
    exact (h.resolve strategies around target resolution).bind_answered (hanswered _)

end Ledger

end

/-! ## Both kinds of stores -/

theorem MemoryStore.quietOf : Ledger.QuietOf MemoryStore Eq where
  readRun _ _ := .refl
  readAll _ := .refl
  append event ledger error next hrefused _ := by
    obtain ⟨fault, -, hfault⟩ := Ledger.exists_fault_of_call hrefused
    exact .single (append_error hfault).symm

theorem DurableStore.quietOf : Ledger.QuietOf DurableStore Alike where
  readRun runId ledger := by
    rw [Ledger.call_snd_store]
    exact .refl
  readAll ledger := by
    rw [Ledger.call_snd_store]
    exact .refl
  append event ledger error next hrefused _ := by
    obtain ⟨fault, -, hfault⟩ := Ledger.exists_fault_of_call hrefused
    exact .single (alike_of_append_error hfault)

namespace Ledger

/-- A request that is refused without an outcome leaves no trace, whatever is on record, be it on a
store in memory or on a durable one.  The table of a durable store is written by the one handle of
this ledger.  The strategies of later requests see of a durable store what it answers, not what its
handle remembers. -/
theorem refused_request_leaves_no_trace :
    (∀ (ledger next : Ledger MemoryStore) (operation : Operation MemoryStore)
        (error : RequestError),
      operation.perform ledger = (.error error, next) → error.IsBare →
        NoTrace (fun _ => True) ledger next) ∧
    ∀ (ledger next : Ledger DurableStore) (operation : Operation DurableStore)
        (error : RequestError),
      operation.perform ledger = (.error error, next) → error.IsBare →
        next.store.table = ledger.store.table ∧
          NoTrace (Operation.SeesAnswers DurableStore.reopen) ledger next := by
  constructor
  · intro ledger next operation error hrefused hbare
    have hsteps := MemoryStore.quietOf.perform operation ledger error next hrefused hbare
    rw [Relation.reflTransGen_eq_self] at hsteps
    intro drawn later _
    rw [hsteps]
    exact ⟨rfl, fun _ _ => rfl⟩
  · intro ledger next operation error hrefused hbare
    have hsteps := DurableStore.quietOf.perform operation ledger error next hrefused hbare
    rw [Relation.reflTransGen_eq_self] at hsteps
    refine ⟨hsteps.table, noTrace_of_alike DurableStore.callsAlike ?_ hsteps⟩
    intro operation hsees
    exact hsees.describesAlike DurableStore.callsAlike fun _ _ h => h.reopen

/-- A ledger on a table with a draft, which has been opened again. -/
def draftReopened : Ledger DurableStore := .on (onTable.after [.submit letterDraft]).store.reopen

theorem holds_draftReopened :
    draftReopened.store.Holds [nextRecord [] letterDraft.normalized] := by
  obtain ⟨next, hsubmit, hholds⟩ :=
    exists_submit_first letterDraft (by decide +kernel) (by decide +kernel)
  have hafter : onTable.after [.submit letterDraft] = next := by
    show (Call.mk onTable (.submit letterDraft)).next = next
    rw [Call.next_submit, hsubmit]
  rw [draftReopened, hafter]
  exact hholds.reopen

/-- An event that is there already is refused, in memory and by a handle on a table that has been
opened again.  The handle remembers the head of the run then, which it did not before.  Neither
shows. -/
theorem refused_draft_leaves_no_trace :
    NoTrace (fun _ => True) (inMemory.after [.submit letterDraft])
        (inMemory.after [.submit letterDraft, .submit letterDraft]) ∧
      ∃ next, (Operation.submit letterDraft).perform draftReopened =
          (.error (.store (.duplicateEvent "draft" "run")), next) ∧
        next.store ≠ draftReopened.store ∧
        NoTrace (Operation.SeesAnswers DurableStore.reopen) draftReopened next := by
  have hdecided : ((Operation.submit letterDraft).perform (inMemory.after [.submit letterDraft])).1 =
      .error (.store (.duplicateEvent "draft" "run")) := by decide +kernel
  constructor
  · exact refused_request_leaves_no_trace.1 _ _ (.submit letterDraft) _ (Prod.ext hdecided rfl) rfl
  · have hlegible : ∀ r ∈ [nextRecord [] letterDraft.normalized], r.Legible := by
      have happend : (StoreCall.append letterDraft).Legible :=
        StoreCall.legible_append_of_none (by decide +kernel) rfl rfl
      exact List.forall_mem_singleton.mpr (happend.record rfl)
    have htaken : appendOn [nextRecord [] letterDraft.normalized] letterDraft.normalized =
        .error (.duplicateEvent "draft" "run") := by decide +kernel
    have hproblems : letterDraft.normalized.problems = [] := by decide +kernel
    obtain ⟨next, hsubmit, hnext⟩ := exists_submit_of_holds holds_draftReopened hlegible (by decide)
      hproblems (by decide +kernel)
    rw [htaken] at hsubmit
    have hrefused : (Operation.submit letterDraft).perform draftReopened =
        (.error (.store (.duplicateEvent "draft" "run")), next) := by
      rw [Operation.perform, bind_apply, hsubmit]
      rfl
    refine ⟨next, hrefused, fun hsame => ?_,
      (refused_request_leaves_no_trace.2 _ _ (.submit letterDraft) _ hrefused rfl).2⟩
    have hknown := holds_draftReopened.isSome_lookup_append hlegible letterDraft.normalized
    rw [← hnext, hsame] at hknown
    cases hknown

end Ledger

end RunLedger
