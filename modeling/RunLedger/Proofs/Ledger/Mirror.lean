/-
  Proofs/Ledger/Mirror.lean --- a ledger on a store that may fail.

  WHAT THIS FILE IS FOR.  A ledger on a store of which any call may fail is looked at
  beside the ledger on the store that is kept.  What a request answers on the first
  it answers on the second as well, with the same effect: `Mirrors` says so of two
  requests, and of the requests of one name piece by piece.  What it is refused on
  the first need not be refused on the second; but then nothing has been recorded.
-/
import RunLedger.Proofs.Ledger.Refusal
import RunLedger.Proofs.Store.Faltering

set_option autoImplicit false

namespace RunLedger

namespace Ledger

variable {σ τ α β : Type}

/-- The ledger on what a function makes of the store. -/
def map (f : σ → τ) (ledger : Ledger σ) : Ledger τ := ⟨f ledger.store, ledger.drawn⟩

/-- What the first request answers, the second one answers on the store that is kept, and both
change the ledger in the same way. -/
def Mirrors (kept : σ → τ) (x : LedgerM σ α) (y : LedgerM τ α) : Prop :=
  ∀ ledger a next, x ledger = (.ok a, next) → y (ledger.map kept) = (.ok a, next.map kept)

namespace Mirrors

variable {kept : σ → τ} {x : LedgerM σ α} {y : LedgerM τ α} {f : α → LedgerM σ β}
  {g : α → LedgerM τ β}

theorem pure (a : α) : Mirrors kept (pure a : LedgerM σ α) (pure a) := by
  intro ledger a' next hrun
  cases hrun
  rfl

/-- A refusal is no answer. -/
theorem throw (error : RequestError) (y : LedgerM τ α) :
    Mirrors kept (throw error : LedgerM σ α) y := by
  intro ledger a next hrun
  cases (Prod.mk.inj hrun).1

theorem readClock (around : Surroundings) :
    Mirrors kept (readClock around) (readClock around : LedgerM τ _) := by
  intro ledger now next hrun
  cases hrun
  rfl

theorem drawToken (around : Surroundings) :
    Mirrors kept (drawToken around) (drawToken around : LedgerM τ _) := by
  intro ledger token next hrun
  cases hrun
  rfl

theorem bind (hx : Mirrors kept x y) (hf : ∀ a, Mirrors kept (f a) (g a)) :
    Mirrors kept (x >>= f) (y >>= g) := by
  intro ledger b next hrun
  obtain ⟨a, middle, hfirst, hrest⟩ := bind_eq_ok_iff.mp hrun
  exact bind_eq_ok_iff.mpr ⟨a, middle.map kept, hx ledger a middle hfirst,
    hf a middle b next hrest⟩

theorem call {c : StoreM σ α} {whole : StoreM τ α} (h : FaltersAs kept c whole) :
    Mirrors kept (call c) (call whole) := by
  intro ledger a next hrun
  unfold Ledger.call at hrun
  split at hrun
  · rename_i hanswer
    have hwhole : whole (ledger.map kept).store = _ := h.answered hanswer
    cases hrun
    unfold Ledger.call
    rw [hwhole]
    rfl
  · cases (Prod.mk.inj hrun).1

theorem stateOf (records : List Record) :
    Mirrors kept (stateOf records) (stateOf records : LedgerM τ _) := by
  unfold Ledger.stateOf
  cases RunState.ofRecords records with
  | ok state => exact pure state
  | error conflict => exact throw _ _

theorem requireOpen (target : Record) (history : List Record) :
    Mirrors kept (requireOpen target history) (requireOpen target history : LedgerM τ _) := by
  unfold Ledger.requireOpen
  cases isAnswered target.eventId history with
  | true => exact throw _ _
  | false =>
    dsimp only
    rw [if_neg (by decide)]
    apply bind (stateOf history)
    intro state
    cases state.status == .paused &&
        state.pending.any fun pending => pending.eventId == target.eventId with
    | true => exact pure _
    | false => exact throw _ _

end Mirrors

/-! ## What is kept -/

section

variable {kept : σ → τ}

theorem kept_eq_of_chain {s t : σ}
    (hchain : Relation.ReflTransGen (fun s t => kept t = kept s) s t) : kept t = kept s := by
  induction hchain with
  | refl => rfl
  | tail _ hstep ih => exact hstep.trans ih

/-- Steps of the store that is kept, one after the other, are steps of it. -/
theorem chain_of_chain_kept {step : τ → τ → Prop} {s t : σ}
    (hchain : Relation.ReflTransGen
      (fun s t => Relation.ReflTransGen step (kept s) (kept t)) s t) :
    Relation.ReflTransGen step (kept s) (kept t) := by
  induction hchain with
  | refl => exact .refl
  | tail _ hstep ih => exact ih.trans hstep

/-- A call that leaves the store that is kept as it is does so also when it may fail. -/
theorem changesBy_of_faltersAs {c : StoreM σ α} {whole : StoreM τ α}
    (h : FaltersAs kept c whole) (hwhole : ∀ store, (whole store).2 = store) :
    ChangesBy (fun s t => kept t = kept s) (call c) := by
  intro ledger
  rw [call_snd_store]
  exact .single (h.kept_eq hwhole ledger.store)

theorem ChangesBy.of_kept {x : LedgerM σ α} (step : τ → τ → Prop)
    (hx : ChangesBy (fun s t => kept t = kept s) x) :
    ChangesBy (fun s t => Relation.ReflTransGen step (kept s) (kept t)) x := by
  intro ledger
  apply Relation.ReflTransGen.single
  rw [kept_eq_of_chain (hx ledger)]

end

/-! ## Requests piece by piece -/

variable [EventStore σ] [EventStore τ] {kept : σ → τ} (h : Falters σ τ kept)

include h

theorem mirrors_recordsOfDecision (decisionId : String) :
    Mirrors kept (recordsOfDecision decisionId) (recordsOfDecision decisionId) := by
  apply Mirrors.bind (.call h.readAll)
  intro all
  exact .pure _

theorem mirrors_targetEvent (target : ApprovalTarget) :
    Mirrors kept (targetEvent target) (targetEvent target) := by
  cases target with
  | event eventId => exact .pure _
  | decision decisionId =>
    apply Mirrors.bind (mirrors_recordsOfDecision h _)
    intro carriers
    cases carriers.isEmpty with
    | true => exact .throw _ _
    | false =>
      dsimp only
      rw [if_neg (by decide)]
      split
      · exact .throw _ _
      · exact .pure _
      · exact .throw _ _

theorem mirrors_recordOfEvent (eventId : String) :
    Mirrors kept (recordOfEvent eventId) (recordOfEvent eventId) := by
  apply Mirrors.bind (.call h.readAll)
  intro all
  split
  · exact .throw _ _
  · exact .pure _
  · exact .throw _ _

theorem mirrors_openRequest (eventId : String) :
    Mirrors kept (openRequest eventId) (openRequest eventId) := by
  apply Mirrors.bind (mirrors_recordOfEvent h eventId)
  intro target
  cases target.event.isRequest with
  | false => exact .throw _ _
  | true =>
    dsimp only
    rw [if_neg (by decide)]
    apply Mirrors.bind (.call (h.readRun _))
    intro history
    apply Mirrors.bind (.requireOpen target history)
    intro before
    exact .pure _

theorem mirrors_submit (event : Event) : Mirrors kept (submit event) (submit event) := by
  unfold submit
  dsimp only
  split
  · apply Mirrors.bind (.call (h.readRun _))
    intro history
    split
    · exact .call (h.append _)
    · exact .throw _ _
  · exact .throw _ _

theorem mirrors_recordAnswer (around : Surroundings) (eventId : String)
    (resolution : Resolution) :
    Mirrors kept (recordAnswer around eventId resolution)
      (recordAnswer around eventId resolution) := by
  apply Mirrors.bind (mirrors_openRequest h eventId)
  rintro ⟨request, history, before⟩
  apply Mirrors.bind (.readClock around)
  intro now
  apply Mirrors.bind (.drawToken around)
  intro token
  apply Mirrors.bind (mirrors_submit h _)
  intro recorded
  exact .pure _

/-! ## Requests as a whole -/

/-- Listings and appends that fail leave the store that is kept as it is. -/
theorem quietOf_kept (hquiet : Quiet τ) : QuietOf σ fun s t => kept t = kept s where
  readRun runId := changesBy_of_faltersAs (h.readRun runId) (hquiet.readRun runId)
  readAll := changesBy_of_faltersAs h.readAll hquiet.readAll
  append event := by
    intro ledger error next hrun _
    obtain ⟨fault, -, hfault⟩ := exists_fault_of_call hrun
    apply Relation.ReflTransGen.single
    rcases (h.append event).refused hfault with hwhole | hkept
    · exact hquiet.append event fault _ _ hwhole
    · exact hkept

/-- Requests change the store that is kept by the steps by which they change a store that does not
fail. -/
theorem stepsOf_kept {step : τ → τ → Prop} (hquiet : Quiet τ) (hsteps : StepsOf τ step) :
    StepsOf σ fun s t => Relation.ReflTransGen step (kept s) (kept t) where
  readRun runId := ((quietOf_kept h hquiet).readRun runId).of_kept step
  readAll := (quietOf_kept h hquiet).readAll.of_kept step
  submit event := by
    intro ledger
    apply Relation.ReflTransGen.single
    rcases hrun : submit event ledger with ⟨error | r, next⟩
    · have hkept := kept_eq_of_chain
        ((quietOf_kept h hquiet).submit event ledger error next hrun (isBare_of_submit hrun))
      rw [hkept]
    · exact (hsteps.submit event).of_run (mirrors_submit h event ledger r next hrun)

end Ledger

end RunLedger
