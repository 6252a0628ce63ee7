/-
  Proofs/Ledger/StatusMoves.lean --- the lines that the status of a run follows.

  WHAT THIS FILE IS FOR.  The status of a run is made anew from its whole history
  each time, so an event that is read in the middle could change it in any way:
  an answer that is dated before an action takes its run from paused to running
  at once.  `RunState.MayBecome` lists what the status may become, and every
  event that is accepted keeps to it.
-/
import RunLedger.Proofs.Ledger.Acceptance

set_option autoImplicit false

namespace RunLedger

namespace RunState

/-! ## What a status may become -/

/-- The run may stand at `q` after it has stood at `p` and taken one event. -/
def MayBecome (p q : RunState) : Prop :=
  match p.status with
  | .running => q.status = .running ∨ q.status = .paused ∨ q.status.isTerminal = true
  | .paused =>
    (q.status = .paused ∧ ∃ request, p.pending = some request ∧ q.pending = some request) ∨
      q.status = .approved ∨ q.status = .rejected ∨ q.status = .running ∨
      q.status.isTerminal = true
  | .approved =>
    q.status = .approved ∨ q.status = .running ∨ q.status = .paused ∨
      q.status.isTerminal = true
  | .rejected => q.status = .rejected ∨ q.status.isTerminal = true
  | .stopped => False
  | .expired => False
  | .completed => False

theorem MayBecome.of_isTerminal {p q : RunState} (halive : p.status.isTerminal = false)
    (hended : q.status.isTerminal = true) : p.MayBecome q := by
  unfold MayBecome
  cases hp : p.status <;> simp_all [RunStatus.isTerminal]

/-- A run that has not ended may stay where it is. -/
theorem MayBecome.refl {p : RunState} (hp : p.Coherent) (halive : p.status.isTerminal = false) :
    p.MayBecome p := by
  unfold MayBecome
  cases hstatus : p.status with
  | running => exact .inl rfl
  | paused =>
    obtain ⟨request, hpending⟩ := Option.isSome_iff_exists.mp (hp.mp hstatus)
    exact .inl ⟨rfl, request, hpending, hpending⟩
  | approved => exact .inl rfl
  | rejected => exact .inl rfl
  | stopped => simp [hstatus, RunStatus.isTerminal] at halive
  | expired => simp [hstatus, RunStatus.isTerminal] at halive
  | completed => simp [hstatus, RunStatus.isTerminal] at halive

/-- An open run that waits for nothing is running or approved. -/
theorem status_of_free {p : RunState} (hp : p.Coherent) (hopen : p.IsOpen)
    (hfree : p.pending = none) : p.status = .running ∨ p.status = .approved := by
  have hpaused : p.status ≠ .paused := fun h => by
    have hwaits := hp.mp h
    simp [hfree] at hwaits
  obtain ⟨halive, hunrejected⟩ := hopen
  cases hstatus : p.status <;> simp_all [RunStatus.isTerminal]

theorem passAll_eq_or (p : RunState) (events : List Event) :
    p.passAll events = p ∨ p.passAll events = p.pass := by
  cases events with
  | nil => exact .inl rfl
  | cons event rest => exact .inr rfl

theorem passAll_of_pending {p : RunState} {request : OpenRequest} (hp : p.Coherent)
    (h : p.pending = some request) (events : List Event) : (p.passAll events).status = .paused := by
  have hpaused : p.status = .paused := hp.mpr (by simp [h])
  rcases p.passAll_eq_or events with hall | hall
  · rw [hall, hpaused]
  · rw [hall, pass_of_pending h]

theorem IsOpen.passAll {p : RunState} (h : p.IsOpen) (events : List Event) :
    (p.passAll events).IsOpen := by
  rcases p.passAll_eq_or events with hall | hall
  · rwa [hall]
  · rw [hall]
    exact h.pass

/-- An event that passes by takes no run off its lines. -/
theorem mayBecome_pass {p : RunState} (hp : p.Coherent) (hopen : p.IsOpen) :
    p.MayBecome p.pass := by
  cases hpending : p.pending with
  | some request =>
    have hpaused : p.status = .paused := hp.mpr (by simp [hpending])
    rw [pass_of_pending hpending, MayBecome, hpaused]
    exact .inl ⟨rfl, request, hpending, rfl⟩
  | none =>
    rcases status_of_free hp hopen hpending with hrunning | happroved
    · have hpass : p.pass = p := by simp [pass, hpending, hrunning]
      rw [hpass]
      exact .refl hp hopen.1
    · simp [MayBecome, pass, hpending, happroved]

namespace Insertion

variable {a p q : RunState} {event : Event} {after : List Event}

/-- An event that can be put into a history keeps the status on its lines. -/
theorem mayBecome (h : Insertion event a after p q) (ha : a.Coherent)
    (hp : p.Coherent) (halive : p.status.isTerminal = false) : p.MayBecome q := by
  cases h with
  | ends _ hmarks => exact .of_isTerminal halive (Event.isTerminal_of_ending? hmarks)
  | answers _ _ _ hpending hverdict _ hlast =>
    simp only [MayBecome, passAll_of_pending ha hpending]
    cases after with
    | nil => rcases hverdict with ⟨-, rfl⟩ | ⟨-, rfl⟩ <;> simp
    | cons next rest =>
      rcases hverdict with ⟨-, rfl⟩ | ⟨-, rfl⟩
      · simp [pass]
      · cases hlast rfl
  | asks hopen _ _ _ hfree =>
    have hfree' : (a.passAll after).pending = none := by rw [passAll_pending, hfree]
    unfold MayBecome
    rcases status_of_free hp (hopen.passAll after) hfree' with hstatus | hstatus <;>
      simp [hstatus]
  | passes hopen _ hsteps =>
    cases after with
    | nil =>
      cases hsteps
      exact mayBecome_pass ha hopen
    | cons next rest => exact .refl hp halive

/-- A run stops waiting through an answer or its end. -/
theorem isAnswer_or_ending (h : Insertion event a after p q) (ha : a.Coherent)
    (hpaused : p.status = .paused) (hq : q.status ≠ .paused) :
    event.isAnswer = true ∨ event.ending?.isSome = true := by
  cases h with
  | ends _ hmarks => exact .inr (by simp [hmarks])
  | answers _ _ hanswer => exact .inl hanswer
  | asks => exact absurd rfl hq
  | passes _ _ hsteps =>
    cases after with
    | nil =>
      cases hsteps
      obtain ⟨request, hpending⟩ := Option.isSome_iff_exists.mp (ha.mp hpaused)
      rw [List.isEmpty_nil, if_pos rfl, pass_of_pending hpending] at hq
      exact absurd rfl hq
    | cons next rest => exact absurd hpaused hq

/-- A rejected run takes an event that ends it, or one that is read before the rejection. -/
theorem ending_or_before (h : Insertion event a after p q) (ha : a.Coherent)
    (hrejected : p.status = .rejected) :
    event.ending?.isSome = true ∨
      ∃ middle rejection, after = middle ++ [rejection] ∧ rejection.isAnswer = true ∧
        rejection.approval.status = .rejected := by
  cases h with
  | ends _ hmarks => exact .inl (by simp [hmarks])
  | answers _ _ _ hpending =>
    rw [passAll_of_pending ha hpending] at hrejected
    cases hrejected
  | asks hopen => exact absurd hrejected (hopen.passAll after).2
  | passes hopen _ hsteps => exact .inr (exists_rejection hsteps hrejected hopen.2)

end Insertion

end RunState

/-! ## The statuses of a ledger -/

/-- What the record `r`, with which the store `s` becomes `t`, does to the statuses of the
runs. -/
structure MemoryStore.MovesStatus (s : MemoryStore) (r : Record) (t : MemoryStore) : Prop where
  /-- the run of the record keeps to the lines; it stops waiting only through an answer or its
  end, and after a rejection takes only its end and what is read before the rejection -/
  own : ∃ p q, RunState.ofRecords (s.readOrder r.runId) = .ok p ∧
    RunState.ofRecords (t.readOrder r.runId) = .ok q ∧ p.MayBecome q ∧
    (p.status = .paused → q.status ≠ .paused →
      r.event.isAnswer = true ∨ r.event.ending?.isSome = true) ∧
    (p.status = .rejected → r.event.ending?.isSome = true ∨
      ∃ before middle rejection,
        t.readOrder r.runId = before ++ r :: middle ++ [rejection] ∧
        rejection.event.isAnswer = true ∧ rejection.event.approval.status = .rejected)
  /-- the other runs are left alone -/
  others : ∀ runId, runId ≠ r.runId → t.readOrder runId = s.readOrder runId

theorem MemoryStore.movesStatus_of_accepts (s : MemoryStore) (r : Record) (t : MemoryStore)
    (hs : s.Sound) (h : s.Accepts r t) : s.MovesStatus r t := by
  obtain ⟨before, after, a, p, q, hold, hnew, hpassage⟩ := h.exists_passage hs
  have hinsertion := hpassage.insertion
  have ha := RunState.coherent_of_steps RunState.coherent_start hpassage.first
  have hp := RunState.coherent_of_steps RunState.coherent_start hpassage.whole
  refine ⟨⟨p, q, hold ▸ hpassage.whole, hnew ▸ hpassage.with_event,
    hinsertion.mayBecome ha hp hpassage.alive, hinsertion.isAnswer_or_ending ha, ?_⟩,
    fun runId hrun => readOrder_other h.appended hrun⟩
  intro hrejected
  refine (hinsertion.ending_or_before ha hrejected).imp_right ?_
  rintro ⟨middle, rejection, hafter, hanswer, hstatus⟩
  obtain ⟨records, last, rfl, rfl, hlast⟩ := List.map_eq_append_iff.mp hafter
  obtain ⟨x, rfl, rfl⟩ := List.map_eq_singleton_iff.mp hlast
  exact ⟨before, records, x, by rw [hnew]; simp, hanswer, hstatus⟩

namespace Ledger

/-- Whatever is asked of a fresh ledger, in whatever order: an event that is accepted next, by
itself or as part of any requests, keeps the status of its run on the lines. -/
theorem status_keeps_to_lines (operations : List (Operation MemoryStore)) :
    (∀ event r next, submit event (inMemory.after operations) = (.ok r, next) →
      (inMemory.after operations).store.MovesStatus r next.store) ∧
    ∀ further, Relation.ReflTransGen (fun s t => ∃ r, s.Accepts r t ∧ s.MovesStatus r t)
      (inMemory.after operations).store (inMemory.after (operations ++ further)).store := by
  refine ⟨?_, accepts_after MemoryStore.movesStatus_of_accepts operations⟩
  intro event r next hsubmit
  exact MemoryStore.movesStatus_of_accepts _ r _ (sound_after operations)
    (submit_eq_ok_iff.mp hsubmit).2.1

/-- The answer to the letter is accepted while the run waits for it, and keeps to the lines. -/
theorem answered_letter_keeps_to_lines :
    RunState.ofRecords ((inMemory.after [.submit letterRequest]).store.readOrder "run") =
      .ok ⟨.paused, some letterRequest.toOpenRequest⟩ ∧
    ∃ r next, submit letterAnswer (inMemory.after [.submit letterRequest]) = (.ok r, next) ∧
      (inMemory.after [.submit letterRequest]).store.MovesStatus r next.store := by
  obtain ⟨r, next, hsubmit⟩ : ∃ r next,
      submit letterAnswer (inMemory.after [.submit letterRequest]) = (.ok r, next) :=
    exists_of_isOk (by decide +kernel)
  exact ⟨by decide +kernel, r, next, hsubmit,
    (status_keeps_to_lines [.submit letterRequest]).1 _ r next hsubmit⟩

end Ledger

end RunLedger
