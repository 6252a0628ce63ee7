/-
  Proofs/Ledger/Request.lean --- how requests to a ledger run.

  WHAT THIS FILE IS FOR.  A request is a chain of smaller ones that ends with the
  first that is refused.  So what is said about requests is said piece by piece:
  by which steps they change the store, and by what they can be refused
  (`Runs`).  Answering a request has two halves in this respect.  Up to the
  moment when the answer is recorded no refusal comes with an outcome; from then
  on nothing is refused any more.  Nothing here depends on the store.

  Which steps a submission makes may depend on how its event is dated.  The times
  of the events that a request makes are those of the clock, or counted on from
  those of the history of a run, so a kind of times that the clock shows and that
  counting on does not leave is kept by all requests (`DatedStepsOf`).
-/
import Mathlib.Logic.Relation
import RunLedger.Approval.Resolve
import RunLedger.Proofs.Event.Dates
import RunLedger.Proofs.Store.Call

set_option autoImplicit false

namespace RunLedger

open RunLedger.Time (Instant)

/-- The outcome that comes with an error, if an answer was recorded before it. -/
def RequestError.outcome? : RequestError → Option Outcome
  | followUpFailed outcome _ => some outcome
  | _ => none

/-- No outcome comes with the error. -/
def RequestError.IsBare (error : RequestError) : Prop := error.outcome? = none

/-- The strategies describe events and leave recording them to the ledger.  They may look at the
store. -/
def Strategies.OnlyDescribe {σ : Type} (strategies : Strategies σ) : Prop :=
  ∀ workflow strategy, strategies.find? workflow = some strategy →
    ∀ context store, (strategy context store).2 = store

/-- What the strategies do to the store themselves is steps of a kind. -/
def Strategies.ChangeBy {σ : Type} (strategies : Strategies σ) (step : σ → σ → Prop) : Prop :=
  ∀ workflow strategy, strategies.find? workflow = some strategy →
    ∀ context store, Relation.ReflTransGen step store (strategy context store).2

theorem Strategies.OnlyDescribe.changeBy {σ : Type} {strategies : Strategies σ}
    (h : strategies.OnlyDescribe) (step : σ → σ → Prop) : strategies.ChangeBy step := by
  intro workflow strategy hfound context store
  rw [h workflow strategy hfound context store]

/-- The events that the strategies describe are dated by times of a kind if the request and its
answer are. -/
def Strategies.DatedBy {σ : Type} (strategies : Strategies σ) (dates : Instant → Prop) : Prop :=
  ∀ workflow strategy, strategies.find? workflow = some strategy →
    ∀ context store, context.request.event.DatedBy dates →
      context.resolution.event.DatedBy dates →
      ∀ event ∈ (strategy context store).1, event.DatedBy dates

theorem Strategies.datedBy_any {σ : Type} (strategies : Strategies σ) :
    strategies.DatedBy fun _ => True :=
  fun _ _ _ _ _ _ _ event _ => event.datedBy_any

/-- The only strategy is the one that is found. -/
theorem Strategies.eq_of_find?_one {σ : Type} {workflow other : String}
    {strategy found : Strategy σ} (h : (set workflow strategy none).find? other = some found) :
    found = strategy := by
  have hone : (set workflow strategy none : Strategies σ) = [(workflow, strategy)] := rfl
  rw [hone, find?, List.lookup_cons] at h
  split at h
  · exact (Option.some.inj h).symm
  · cases h

/-- A strategy that only describes events may be the only one. -/
theorem Strategies.onlyDescribe_one {σ : Type} (workflow : String)
    (describe : FollowUpContext → List Event) :
    (set workflow (.pure describe) none : Strategies σ).OnlyDescribe := by
  intro other strategy hfound context store
  rw [eq_of_find?_one hfound]
  rfl

/-- The strategies that are there from the start only describe. -/
theorem Strategies.onlyDescribe_standard {σ : Type} :
    (standard : Strategies σ).OnlyDescribe :=
  onlyDescribe_one Triage.workflow Triage.followUp

/-- And they count on from the time of the answer. -/
theorem Strategies.datedBy_standard {σ : Type} {dates : Instant → Prop}
    (haddMillis : ∀ t millis, dates t → dates (t.addMillis millis)) :
    (standard : Strategies σ).DatedBy dates := by
  intro workflow strategy hfound context store _ hresolution event hevent
  rw [eq_of_find?_one hfound] at hevent
  have hone : event = Triage.resumption context ∨ event = Triage.completion context := by
    simpa [Strategy.pure, Triage.followUp] using hevent
  have hcounted (millis : Int) := haddMillis _ millis hresolution.timestamp
  rcases hone with rfl | rfl
  · exact .of_unanswered (hcounted 1) rfl
  · exact .of_unanswered (hcounted 2) rfl

/-! ## The times of what a request makes -/

section

variable {dates : Instant → Prop} {at_ : Instant}

theorem ApprovalRequest.datedBy_toEvent (request : ApprovalRequest) (h : dates at_)
    (token : String) : (request.toEvent at_ token).DatedBy dates :=
  .of_unanswered h rfl

theorem Resolution.datedBy_toEvent (resolution : Resolution) (target : Record) (h : dates at_)
    (token : String) : (resolution.toEvent target at_ token).DatedBy dates :=
  ⟨h, by simpa [toEvent, Approval.resolved] using h⟩

theorem datedBy_failureEvent (request : Record) (cause : RequestError) (h : dates at_)
    (token : String) : (failureEvent request cause at_ token).DatedBy dates :=
  .of_unanswered h rfl

end

namespace Ledger

variable {σ α β : Type}

/-! ## Answers -/

theorem exists_of_isOk {x : LedgerM σ α} {ledger : Ledger σ} (h : (x ledger).1.isOk = true) :
    ∃ a next, x ledger = (.ok a, next) := by
  rcases hrun : x ledger with ⟨error | a, next⟩
  · rw [hrun] at h
    cases h
  · exact ⟨a, next, rfl⟩

/-- Nothing follows a refusal. -/
theorem throw_bind (error : RequestError) (f : α → LedgerM σ β) :
    ((throw error : LedgerM σ α) >>= f) = throw error := rfl

/-! ## Steps and refusals -/

/-- Whatever the request answers, it takes the store from one state to another by steps of a
kind. -/
def ChangesBy (step : σ → σ → Prop) (x : LedgerM σ α) : Prop :=
  ∀ ledger, Relation.ReflTransGen step ledger.store (x ledger).2.store

theorem ChangesBy.of_run {step : σ → σ → Prop} {x : LedgerM σ α} {ledger next : Ledger σ}
    {answer : Except RequestError α} (h : ChangesBy step x) (hrun : x ledger = (answer, next)) :
    Relation.ReflTransGen step ledger.store next.store := by
  have hsteps := h ledger
  rwa [hrun] at hsteps

/-- What the request gives, if it is answered, is of a kind. -/
def Gives (kind : α → Prop) (x : LedgerM σ α) : Prop :=
  ∀ ledger a next, x ledger = (.ok a, next) → kind a

namespace Gives

variable {kind : α → Prop} {other : β → Prop} {x : LedgerM σ α} {f : α → LedgerM σ β}

theorem any (x : LedgerM σ α) : Gives (fun _ => True) x := fun _ _ _ _ => trivial

theorem pure {a : α} (h : kind a) : Gives kind (pure a : LedgerM σ α) := by
  intro ledger b next hrun
  obtain rfl := Except.ok.inj (Prod.mk.inj hrun).1
  exact h

theorem throw (error : RequestError) : Gives kind (throw error : LedgerM σ α) :=
  fun _ _ _ hrun => nomatch (Prod.mk.inj hrun).1

theorem bind (hx : Gives kind x) (hf : ∀ a, kind a → Gives other (f a)) :
    Gives other (x >>= f) := by
  intro ledger b next hrun
  obtain ⟨a, middle, hfirst, hrest⟩ := bind_eq_ok_iff.mp hrun
  exact hf a (hx ledger a middle hfirst) middle b next hrest

/-- An attempt gives what the request gives, or its refusal. -/
theorem attempt (hx : Gives kind x) :
    Gives (fun answer => ∀ a, answer = .ok a → kind a) (attempt x) := by
  intro ledger answer next hrun a ha
  obtain ⟨hanswer, hnext⟩ := Prod.mk.inj hrun
  refine hx ledger a next (Prod.ext ?_ hnext)
  rw [Except.ok.inj hanswer, ha]

theorem readClock {dates : Instant → Prop} {around : Surroundings}
    (hnow : ∀ n, dates (around.now n)) : Gives dates (readClock around : LedgerM σ _) := by
  intro ledger now next hrun
  obtain rfl := Except.ok.inj (Prod.mk.inj hrun).1
  exact hnow _

end Gives

/-- The request changes the store by steps of a kind, and what refuses it is of a kind. -/
structure Runs (step : σ → σ → Prop) (refusal : RequestError → Prop) (x : LedgerM σ α) :
    Prop where
  changes : ChangesBy step x
  refusals : ∀ ledger error next, x ledger = (.error error, next) → refusal error

namespace Runs

variable {step : σ → σ → Prop} {refusal refusal' : RequestError → Prop} {x : LedgerM σ α}
  {f : α → LedgerM σ β}

/-- A request that keeps the store and is answered makes no step. -/
theorem of_keeps (h : ∀ ledger, ∃ a next, x ledger = (.ok a, next) ∧ next.store = ledger.store) :
    Runs step refusal x where
  changes ledger := by
    obtain ⟨a, next, hrun, hstore⟩ := h ledger
    rw [hrun, hstore]
  refusals ledger error next hrefused := by
    obtain ⟨a, next', hrun, -⟩ := h ledger
    rw [hrun] at hrefused
    cases (Prod.mk.inj hrefused).1

theorem pure (a : α) : Runs step refusal (pure a : LedgerM σ α) :=
  of_keeps fun ledger => ⟨a, ledger, rfl, rfl⟩

theorem readClock (around : Surroundings) : Runs step refusal (readClock around : LedgerM σ _) :=
  of_keeps fun _ => ⟨_, _, rfl, rfl⟩

theorem drawToken (around : Surroundings) : Runs step refusal (drawToken around : LedgerM σ _) :=
  of_keeps fun _ => ⟨_, _, rfl, rfl⟩

theorem throw {error : RequestError} (h : refusal error) :
    Runs step refusal (throw error : LedgerM σ α) where
  changes _ := .refl
  refusals ledger error' next hthrow := by
    obtain rfl := Except.error.inj (Prod.mk.inj hthrow).1
    exact h

/-- What comes next may rely on what the first request gives. -/
theorem bindGiven {kind : α → Prop} (hx : Runs step refusal x) (hgives : Gives kind x)
    (hf : ∀ a, kind a → Runs step refusal (f a)) : Runs step refusal (x >>= f) where
  changes ledger := by
    have hfirst := hx.changes ledger
    rw [bind_apply]
    rcases hrun : x ledger with ⟨error | a, next⟩
    · rw [hrun] at hfirst
      exact hfirst
    · rw [hrun] at hfirst
      exact hfirst.trans ((hf a (hgives ledger a next hrun)).changes next)
  refusals ledger error next h := by
    rcases bind_eq_error_iff.mp h with hfirst | ⟨a, middle, hrun, hrest⟩
    · exact hx.refusals ledger error next hfirst
    · exact (hf a (hgives ledger a middle hrun)).refusals middle error next hrest

theorem bind (hx : Runs step refusal x) (hf : ∀ a, Runs step refusal (f a)) :
    Runs step refusal (x >>= f) :=
  hx.bindGiven (.any x) fun a _ => hf a

theorem mono (hx : Runs step refusal x) (h : ∀ error, refusal error → refusal' error) :
    Runs step refusal' x :=
  ⟨hx.changes, fun ledger error next hrefused => h error (hx.refusals ledger error next hrefused)⟩

/-- An attempt is not refused. -/
theorem attempt (hx : ChangesBy step x) : Runs step refusal (attempt x) where
  changes := hx
  refusals _ _ _ h := by cases (Prod.mk.inj h).1

theorem adapt {g : RequestError → RequestError} (hx : Runs step refusal x)
    (hg : ∀ error, refusal error → refusal' (g error)) :
    Runs step refusal' (ExceptT.adapt g x : LedgerM σ α) where
  changes := hx.changes
  refusals ledger error next h := by
    have hrun : (x ledger).1.mapError g = .error error := (Prod.mk.inj h).1
    rcases hanswer : x ledger with ⟨error' | a, next'⟩
    · rw [hanswer] at hrun
      obtain rfl := Except.error.inj hrun
      exact hg error' (hx.refusals ledger error' next' hanswer)
    · rw [hanswer] at hrun
      cases hrun

/-- A request that nothing can refuse is answered. -/
theorem exists_answer (h : Runs step (fun _ => False) x) (ledger : Ledger σ) :
    ∃ a next, x ledger = (.ok a, next) := by
  rcases hrun : x ledger with ⟨error | a, next⟩
  · exact (h.refusals ledger error next hrun).elim
  · exact ⟨a, next, rfl⟩

theorem stateOf (records : List Record) :
    Runs step RequestError.IsBare (stateOf records : LedgerM σ _) := by
  unfold Ledger.stateOf
  split
  · exact pure _
  · exact throw rfl

theorem refuseRepetition (decisionId : String) (records : List Record) :
    Runs step RequestError.IsBare (refuseRepetition decisionId records : LedgerM σ _) := by
  unfold Ledger.refuseRepetition
  split
  · exact throw rfl
  · exact pure _

theorem requireOpen (target : Record) (history : List Record) :
    Runs step RequestError.IsBare (requireOpen target history : LedgerM σ _) := by
  unfold Ledger.requireOpen
  dsimp only
  split
  · rw [throw_bind]
    exact throw rfl
  · refine (stateOf history).bind fun state => ?_
    split
    · exact pure _
    · exact throw rfl

end Runs

/-! ## Calls of the store -/

theorem call_snd_store (c : StoreM σ α) (ledger : Ledger σ) :
    (call c ledger).2.store = (c ledger.store).2 := by
  unfold call
  rcases c ledger.store with ⟨error | a, store⟩ <;> rfl

theorem call_fst (c : StoreM σ α) (ledger : Ledger σ) :
    (call c ledger).1 = (c ledger.store).1.mapError RequestError.store := by
  unfold call
  rcases c ledger.store with ⟨error | a, store⟩ <;> rfl

theorem call_fst_map (c : StoreM σ α) (f : α → β) (ledger : Ledger σ) :
    (call c ledger).1.map f = ((c ledger.store).1.map f).mapError RequestError.store := by
  rw [call_fst]
  cases (c ledger.store).1 <;> rfl

/-- A call is refused exactly because the store fails. -/
theorem exists_fault_of_call {c : StoreM σ α} {ledger next : Ledger σ} {error : RequestError}
    (h : call c ledger = (.error error, next)) :
    ∃ fault, error = .store fault ∧ c ledger.store = (.error fault, next.store) := by
  unfold call at h
  split at h
  · cases (Prod.mk.inj h).1
  · rename_i fault store hfault
    cases h
    exact ⟨fault, rfl, hfault⟩

theorem isBare_of_call {c : StoreM σ α} {ledger next : Ledger σ} {error : RequestError}
    (h : call c ledger = (.error error, next)) : error.IsBare := by
  obtain ⟨fault, rfl, -⟩ := exists_fault_of_call h
  rfl

variable [EventStore σ]

theorem isBare_of_submit {event : Event} {ledger next : Ledger σ} {error : RequestError}
    (h : submit event ledger = (.error error, next)) : error.IsBare := by
  unfold submit at h
  cases hproblems : event.normalized.problems with
  | cons problem rest =>
    rw [hproblems] at h
    obtain rfl := Except.error.inj (Prod.mk.inj h).1
    rfl
  | nil =>
    rw [hproblems] at h
    rcases bind_eq_error_iff.mp h with hcall | ⟨history, middle, -, hrest⟩
    · exact isBare_of_call hcall
    · cases hviolations : Gate.violations event.normalized history with
      | nil =>
        rw [hviolations] at hrest
        exact isBare_of_call hrest
      | cons violation rest =>
        rw [hviolations] at hrest
        obtain rfl := Except.error.inj (Prod.mk.inj hrest).1
        rfl

/-! ## Requests piece by piece -/

/-- Listings change a store by steps of a kind. -/
structure ReadsOf (σ : Type) [EventStore σ] (step : σ → σ → Prop) : Prop where
  readRun : ∀ runId, ChangesBy step (call (EventStore.readRun runId : StoreM σ _))
  readAll : ChangesBy step (call (EventStore.readAll : StoreM σ _))

/-- Listings and submissions, of which all other requests are made, change a store by steps of a
kind. -/
structure StepsOf (σ : Type) [EventStore σ] (step : σ → σ → Prop) : Prop
    extends ReadsOf σ step where
  submit : ∀ event, ChangesBy step (submit event : LedgerM σ _)

/-- Submissions of events that are dated by times of a kind change a store by steps of a kind; the
events that are recorded or listed are dated by such times; and what is counted on from such a time
is one. -/
structure DatedStepsOf (σ : Type) [EventStore σ] (step : σ → σ → Prop) (dates : Instant → Prop) :
    Prop extends ReadsOf σ step where
  run : ∀ runId, Gives (fun records => ∀ r ∈ records, r.event.DatedBy dates)
    (call (EventStore.readRun runId : StoreM σ _))
  all : Gives (fun records => ∀ r ∈ records, r.event.DatedBy dates)
    (call (EventStore.readAll : StoreM σ _))
  submit : ∀ event, event.DatedBy dates → ChangesBy step (Ledger.submit event : LedgerM σ _)
  recorded : ∀ event, event.DatedBy dates →
    Gives (fun r => r.event.DatedBy dates) (Ledger.submit event : LedgerM σ _)
  toMicros : ∀ t, dates t → dates t.toMicros
  addMillis : ∀ t millis, dates t → dates (t.addMillis millis)

/-- Whatever times events are dated by, they are times. -/
theorem StepsOf.dated {step : σ → σ → Prop} (h : StepsOf σ step) :
    DatedStepsOf σ step fun _ => True where
  toReadsOf := h.toReadsOf
  run _ _ _ _ _ _ _ := ⟨trivial, fun _ _ => trivial⟩
  all _ _ _ _ _ _ := ⟨trivial, fun _ _ => trivial⟩
  submit event _ := h.submit event
  recorded _ _ _ _ _ _ := ⟨trivial, fun _ _ => trivial⟩
  toMicros _ _ := trivial
  addMillis _ _ _ := trivial

/-! ### Finding a request -/

namespace ReadsOf

variable {step : σ → σ → Prop} (h : ReadsOf σ step)

include h

theorem runs_readRun (runId : String) :
    Runs step RequestError.IsBare (call (EventStore.readRun runId : StoreM σ _)) :=
  ⟨h.readRun runId, fun _ _ _ => isBare_of_call⟩

theorem runs_readAll : Runs step RequestError.IsBare (call (EventStore.readAll : StoreM σ _)) :=
  ⟨h.readAll, fun _ _ _ => isBare_of_call⟩

theorem recordsOfDecision (decisionId : String) :
    Runs step RequestError.IsBare (recordsOfDecision decisionId : LedgerM σ _) :=
  h.runs_readAll.bind fun _ => .pure _

theorem targetEvent (target : ApprovalTarget) :
    Runs step RequestError.IsBare (targetEvent target : LedgerM σ _) := by
  cases target with
  | event eventId => exact .pure _
  | decision decisionId =>
    refine (h.recordsOfDecision (Text.trim decisionId)).bind fun carriers => ?_
    dsimp only
    split
    · rw [throw_bind]
      exact .throw rfl
    · split
      · exact .throw rfl
      · exact .pure _
      · exact .throw rfl

theorem recordOfEvent (eventId : String) :
    Runs step RequestError.IsBare (recordOfEvent eventId : LedgerM σ _) := by
  refine h.runs_readAll.bind fun all => ?_
  split
  · exact .throw rfl
  · exact .pure _
  · exact .throw rfl

theorem openRequest (eventId : String) :
    Runs step RequestError.IsBare (openRequest eventId : LedgerM σ _) := by
  refine (h.recordOfEvent eventId).bind fun target => ?_
  dsimp only
  split
  · rw [throw_bind]
    exact .throw rfl
  · exact (h.runs_readRun _).bind fun history =>
      (Runs.requireOpen target history).bind fun _ => .pure _

/-- The status of a run is read. -/
theorem statusOr {refusal : RequestError → Prop} (runId : String) (otherwise : RunStatus) :
    Runs step refusal (statusOr runId otherwise : LedgerM σ _) := by
  have hread := (h.runs_readRun runId).bind fun history => Runs.stateOf history
  refine (Runs.attempt hread.changes).bind fun answer => ?_
  cases answer with
  | error error => exact .pure _
  | ok state => exact .pure _

end ReadsOf

/-! ### Recording -/

namespace DatedStepsOf

variable {step : σ → σ → Prop} {refusal : RequestError → Prop} {dates : Instant → Prop}
  (h : DatedStepsOf σ step dates)

include h

theorem runs_submit {event : Event} (hevent : event.DatedBy dates) :
    Runs step RequestError.IsBare (Ledger.submit event : LedgerM σ _) :=
  ⟨h.submit event hevent, fun _ _ _ => isBare_of_submit⟩

/-- The time behind the events of a run is that of the clock, or counted on from one of theirs. -/
theorem timeAfter {records : List Record} (hrecords : ∀ r ∈ records, r.event.DatedBy dates)
    {now : Instant} (hnow : dates now) : dates (timeAfter records now) := by
  unfold RunLedger.timeAfter
  cases records with
  | nil => exact h.toMicros now hnow
  | cons first rest =>
    have hlast := Instant.foldl_latest_mem first.timestamp (rest.map Record.timestamp)
    rw [← List.map_cons] at hlast
    obtain ⟨r, hr, htime⟩ := List.mem_map.mp hlast
    rw [List.map_cons]
    dsimp only
    rw [← htime]
    split
    · exact h.addMillis _ _ (hrecords r hr).timestamp
    · exact h.toMicros now hnow

theorem gives_recordOfEvent (eventId : String) :
    Gives (fun r => r.event.DatedBy dates) (recordOfEvent eventId : LedgerM σ _) := by
  refine h.all.bind fun all hall => ?_
  split
  · exact .throw _
  · rename_i r hone
    have hr : r ∈ all.filter fun r => r.eventId == eventId := hone ▸ List.mem_singleton_self r
    exact .pure (hall r (List.mem_of_mem_filter hr))
  · exact .throw _

theorem gives_openRequest (eventId : String) :
    Gives (fun found => found.1.event.DatedBy dates ∧ ∀ r ∈ found.2.1, r.event.DatedBy dates)
      (openRequest eventId : LedgerM σ _) := by
  refine (h.gives_recordOfEvent eventId).bind fun target htarget => ?_
  dsimp only
  split
  · rw [throw_bind]
    exact .throw _
  · exact (h.run _).bind fun history hhistory => (Gives.any _).bind fun _ _ =>
      .pure ⟨htarget, hhistory⟩

variable {around : Surroundings} (hnow : ∀ n, dates (around.now n))

include hnow

theorem register (request : ApprovalRequest) :
    Runs step RequestError.IsBare (register around request : LedgerM σ _) := by
  have hadapt (error : RequestError) (hbare : error.IsBare) :
      (requestExists (Text.trim request.decisionId) error).IsBare := by
    unfold requestExists
    split
    · rfl
    · exact hbare
  unfold Ledger.register
  dsimp only
  split
  · rw [throw_bind]
    exact .throw rfl
  · refine (h.recordsOfDecision _).bind fun records => ?_
    refine (Runs.refuseRepetition _ records).bind fun _ => ?_
    refine (h.runs_readRun _).bindGiven (h.run _) fun history hhistory => ?_
    refine (Runs.readClock around).bindGiven (.readClock hnow) fun now hnow => ?_
    refine (Runs.drawToken around).bind fun token => ?_
    have hevent := request.datedBy_toEvent (h.timeAfter hhistory hnow) token
    exact ((h.runs_submit hevent).adapt hadapt).bind fun r => .pure _

theorem recordAnswer (eventId : String) (resolution : Resolution) :
    Runs step RequestError.IsBare (recordAnswer around eventId resolution : LedgerM σ _) := by
  refine ((h.openRequest eventId).bindGiven (h.gives_openRequest eventId))
    fun (request, history, before) hfound => ?_
  refine (Runs.readClock around).bindGiven (.readClock hnow) fun now hnow => ?_
  refine (Runs.drawToken around).bind fun token => ?_
  have hevent := resolution.datedBy_toEvent request (h.timeAfter hfound.2 hnow) token
  exact (h.runs_submit hevent).bind fun recorded => .pure _

theorem gives_recordAnswer (eventId : String) (resolution : Resolution) :
    Gives (fun found => found.1.event.DatedBy dates ∧ found.2.1.event.DatedBy dates)
      (Ledger.recordAnswer around eventId resolution : LedgerM σ _) := by
  refine (h.gives_openRequest eventId).bind fun (request, history, before) hfound => ?_
  refine (Gives.readClock hnow).bind fun now hnow => (Gives.any _).bind fun token _ => ?_
  have hevent := resolution.datedBy_toEvent request (h.timeAfter hfound.2 hnow) token
  exact (h.recorded _ hevent).bind fun recorded hrecorded => .pure ⟨hfound.1, hrecorded⟩

/-! ### After the answer -/

omit hnow in
theorem submitEach {events : List Event} (hevents : ∀ event ∈ events, event.DatedBy dates) :
    Runs step refusal (submitEach events : LedgerM σ _) := by
  induction events with
  | nil => exact .pure _
  | cons event rest ih =>
    obtain ⟨hevent, hrest⟩ := List.forall_mem_cons.mp hevents
    refine (Runs.attempt (h.submit event hevent)).bind fun answer => ?_
    cases answer with
    | error error => exact .pure _
    | ok r => exact (ih hrest).bind fun _ => .pure _

theorem recordFailure (request : Record) (cause : RequestError) :
    Runs step refusal (recordFailure around request cause : LedgerM σ _) := by
  refine (Runs.attempt (h.readRun request.runId)).bindGiven (h.run request.runId).attempt
    fun answer hanswer => ?_
  cases answer with
  | error error => exact .pure _
  | ok history =>
    refine (Runs.readClock around).bindGiven (.readClock hnow) fun now hnow => ?_
    refine (Runs.drawToken around).bind fun token => ?_
    have hevent := datedBy_failureEvent request cause (h.timeAfter (hanswer _ rfl) hnow) token
    exact (Runs.attempt (h.submit _ hevent)).bind fun _ => .pure _

theorem noteFailure (request : Record) (failure : Option RequestError) :
    Runs step refusal (noteFailure around request failure : LedgerM σ _) := by
  cases failure with
  | some cause => exact h.recordFailure hnow request cause
  | none => exact .pure _

variable {strategies : Strategies σ} (hstrategies : strategies.ChangeBy step)
  (hdated : strategies.DatedBy dates)

include hstrategies hdated

omit hnow in
theorem continueAnswer {context : FollowUpContext} (hrequest : context.request.event.DatedBy dates)
    (hresolution : context.resolution.event.DatedBy dates) (answer : Answer) :
    Runs step refusal (continueAnswer strategies context answer) := by
  cases answer with
  | rejected => exact .pure _
  | approved =>
    show Runs step refusal (continueAfter strategies context)
    unfold continueAfter
    split
    · exact .pure _
    · rename_i strategy hfound
      obtain ⟨workflow, -, hstrategy⟩ := Option.bind_eq_some_iff.mp hfound
      have hrun : Runs step refusal (runStrategy strategy context) :=
        ⟨fun ledger => hstrategies workflow strategy hstrategy context ledger.store,
          fun _ _ _ h => by cases (Prod.mk.inj h).1⟩
      have hgives : Gives (fun events => ∀ event ∈ events, event.DatedBy dates)
          (runStrategy strategy context) := by
        intro ledger events next hrun
        obtain rfl := Except.ok.inj (Prod.mk.inj hrun).1
        exact hdated workflow strategy hstrategy context ledger.store hrequest hresolution
      exact hrun.bindGiven hgives fun events hevents => h.submitEach hevents

theorem conclude {target recorded : Record} (htarget : target.event.DatedBy dates)
    (hrecorded : recorded.event.DatedBy dates) (before : RunStatus) (answer : Answer) :
    Runs step (fun _ => True) (conclude strategies around target recorded before answer) := by
  refine (h.continueAnswer hstrategies hdated htarget hrecorded answer).bind
    fun (ids, failure) => ?_
  refine (h.noteFailure hnow target failure).bind fun _ => ?_
  refine (h.statusOr _ _).bind fun after => ?_
  cases failure with
  | some cause => exact .throw trivial
  | none => exact .pure _

theorem resolve (target : ApprovalTarget) (resolution : Resolution) :
    Runs step (fun _ => True) (resolve strategies around target resolution) := by
  refine ((h.targetEvent target).mono fun _ _ => trivial).bind fun eventId => ?_
  refine ((h.recordAnswer hnow eventId resolution).mono fun _ _ => trivial).bindGiven
    (h.gives_recordAnswer hnow eventId resolution) fun (request, recorded, before) hfound => ?_
  exact h.conclude hnow hstrategies hdated hfound.1 hfound.2 before resolution.answer

end DatedStepsOf

/-! ### Whatever the dates -/

namespace StepsOf

variable {step : σ → σ → Prop} {refusal : RequestError → Prop} (h : StepsOf σ step)

include h

theorem runs_submit (event : Event) :
    Runs step RequestError.IsBare (Ledger.submit event : LedgerM σ _) :=
  h.dated.runs_submit event.datedBy_any

theorem register (around : Surroundings) (request : ApprovalRequest) :
    Runs step RequestError.IsBare (register around request : LedgerM σ _) :=
  h.dated.register (fun _ => trivial) request

theorem recordAnswer (around : Surroundings) (eventId : String) (resolution : Resolution) :
    Runs step RequestError.IsBare (recordAnswer around eventId resolution : LedgerM σ _) :=
  h.dated.recordAnswer (fun _ => trivial) eventId resolution

theorem noteFailure (around : Surroundings) (request : Record) (failure : Option RequestError) :
    Runs step refusal (noteFailure around request failure : LedgerM σ _) :=
  h.dated.noteFailure (fun _ => trivial) request failure

variable {strategies : Strategies σ} (hstrategies : strategies.ChangeBy step)

include hstrategies

theorem continueAnswer (context : FollowUpContext) (answer : Answer) :
    Runs step refusal (continueAnswer strategies context answer) :=
  h.dated.continueAnswer hstrategies strategies.datedBy_any context.request.event.datedBy_any
    context.resolution.event.datedBy_any answer

theorem conclude (around : Surroundings) (target recorded : Record) (before : RunStatus)
    (answer : Answer) :
    Runs step (fun _ => True) (conclude strategies around target recorded before answer) :=
  h.dated.conclude (fun _ => trivial) hstrategies strategies.datedBy_any target.event.datedBy_any
    recorded.event.datedBy_any before answer

theorem resolve (around : Surroundings) (target : ApprovalTarget) (resolution : Resolution) :
    Runs step (fun _ => True) (resolve strategies around target resolution) :=
  h.dated.resolve (fun _ => trivial) hstrategies strategies.datedBy_any target resolution

end StepsOf

end Ledger

end RunLedger
