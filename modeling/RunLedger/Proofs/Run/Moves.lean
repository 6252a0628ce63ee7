/-
  Proofs/Run/Moves.lean --- the lines of the status diagram.

  WHAT THIS FILE IS FOR.  An event takes a run along one of four lines: it ends
  the run, answers the open request, asks for an approval, or passes by.
  `RunState.Moves` has one constructor for each with all that the line asks for,
  and `step` follows exactly these lines.  What is said about histories rests on
  it and does not look into `step` again.
-/
import RunLedger.Run.Status

set_option autoImplicit false

namespace RunLedger

/-! ## What an event is to a run -/

namespace Event

/-- The event neither ends a run nor asks nor answers. -/
def IsNeutral (event : Event) : Prop :=
  event.ending? = none ∧ event.isAnswer = false ∧ event.isRequest = false

instance (event : Event) : Decidable event.IsNeutral :=
  inferInstanceAs (Decidable (_ ∧ _ ∧ _))

/-- The event, as an answer, leaves its run in a status. -/
def Says (event : Event) (status : RunStatus) : Prop :=
  (event.approval.status = .approved ∧ status = .approved) ∨
    (event.approval.status = .rejected ∧ status = .rejected)

theorem isTerminal_of_ending? {event : Event} {status : RunStatus}
    (h : event.ending? = some status) : status.isTerminal = true := by
  unfold ending? at h
  split at h
  · cases h
    rfl
  · split at h <;> cases h <;> rfl

theorem Says.not_isTerminal {event : Event} {status : RunStatus} (h : event.Says status) :
    status.isTerminal = false := by
  rcases h with ⟨_, rfl⟩ | ⟨_, rfl⟩ <;> rfl

end Event

namespace RunState

/-- The run takes events that do not end it. -/
def IsOpen (p : RunState) : Prop :=
  p.status.isTerminal = false ∧ p.status ≠ .rejected

/-- A run waits exactly while it has an open request. -/
def Coherent (p : RunState) : Prop := p.status = .paused ↔ p.pending.isSome = true

theorem coherent_start : start.Coherent := by simp [Coherent, start]

/-! ## Passing by -/

theorem pass_pending (p : RunState) : p.pass.pending = p.pending := by
  unfold pass
  split
  · rfl
  · split <;> rfl

theorem pass_of_pending {p : RunState} {request : OpenRequest} (h : p.pending = some request) :
    p.pass = ⟨.paused, some request⟩ := by
  simp [pass, h]

theorem pass_pass (p : RunState) : p.pass.pass = p.pass := by
  cases hpending : p.pending with
  | some request =>
    rw [pass_of_pending hpending]
    rfl
  | none =>
    by_cases happroved : p.status = .approved
    · simp [pass, hpending, happroved]
    · simp [pass, hpending, happroved]

theorem IsOpen.pass {p : RunState} (h : p.IsOpen) : p.pass.IsOpen := by
  cases hpending : p.pending with
  | some request =>
    rw [pass_of_pending hpending]
    exact ⟨rfl, by simp⟩
  | none =>
    by_cases happroved : p.status = .approved
    · simp [RunState.pass, hpending, happroved, IsOpen, RunStatus.isTerminal]
    · simpa [RunState.pass, hpending, happroved] using h

theorem Coherent.pass {p : RunState} (h : p.Coherent) : p.pass.Coherent := by
  cases hpending : p.pending with
  | some request =>
    rw [pass_of_pending hpending]
    simp [Coherent]
  | none =>
    by_cases happroved : p.status = .approved
    · simp [RunState.pass, hpending, happroved, Coherent]
    · simpa [RunState.pass, hpending, happroved] using h

/-- An open run that some event has just passed by goes on like one that none has. -/
theorem step_pass {p : RunState} (hopen : p.IsOpen) (event : Event) :
    p.pass.step event = p.step event := by
  obtain ⟨halive, hunrejected⟩ := hopen
  obtain ⟨halive', hunrejected'⟩ := IsOpen.pass ⟨halive, hunrejected⟩
  have hanswer : p.pass.resolve event = p.resolve event := by simp only [resolve, pass_pending]
  have hask : p.pass.request event = p.request event := by simp only [request, pass_pending]
  simp only [step, halive, halive', hunrejected, hunrejected', Bool.false_eq_true, if_false,
    hanswer, hask, pass_pass]

/-! ## The four lines -/

/-- The lines of the status diagram. -/
inductive Moves : RunState → Event → RunState → Prop
  /-- the event marks the end of the run -/
  | ends {p : RunState} {event : Event} {status : RunStatus}
      (alive : p.status.isTerminal = false) (marks : event.ending? = some status) :
      Moves p event ⟨status, none⟩
  /-- the event answers the open request, and says who answered and when -/
  | answers {p : RunState} {event : Event} {request : OpenRequest} {status : RunStatus}
      (isOpen : p.IsOpen) (goesOn : event.ending? = none) (isAnswer : event.isAnswer = true)
      (pending : p.pending = some request) (verdict : event.Says status)
      (signed : Text.isBlankOption event.approval.resolvedBy = false)
      (dated : event.approval.resolvedAt.isSome = true) :
      Moves p event ⟨status, none⟩
  /-- the event asks for an approval, and no other request is open -/
  | asks {p : RunState} {event : Event}
      (isOpen : p.IsOpen) (goesOn : event.ending? = none) (noAnswer : event.isAnswer = false)
      (isRequest : event.isRequest = true) (free : p.pending = none) :
      Moves p event ⟨.paused, some event.toOpenRequest⟩
  /-- the event passes by -/
  | passes {p : RunState} {event : Event} (isOpen : p.IsOpen) (neutral : event.IsNeutral) :
      Moves p event p.pass

theorem resolve_eq_ok_iff {p q : RunState} {event : Event} :
    p.resolve event = .ok q ↔
      ∃ request status, p.pending = some request ∧ event.Says status ∧
        Text.isBlankOption event.approval.resolvedBy = false ∧
        event.approval.resolvedAt.isSome = true ∧ q = ⟨status, none⟩ := by
  unfold resolve Event.Says
  cases hsays : event.approval.status <;> cases hpending : p.pending <;>
    cases hblank : Text.isBlankOption event.approval.resolvedBy <;>
    cases hdate : event.approval.resolvedAt <;> simp [eq_comm]

/-- An event takes a run to a state exactly along one of the lines. -/
theorem step_eq_ok_iff {p q : RunState} {event : Event} :
    p.step event = .ok q ↔ p.Moves event q := by
  constructor
  · intro h
    unfold step at h
    split at h
    · cases h
    · rename_i hterminal
      have halive : p.status.isTerminal = false := by simpa using hterminal
      split at h
      · rename_i status hmarks
        cases h
        exact .ends halive hmarks
      · rename_i hgoes
        split at h
        · cases h
        · rename_i hunrejected
          split at h
          · rename_i hanswer
            obtain ⟨request, status, hpending, hsays, hsigned, hdated, rfl⟩ :=
              resolve_eq_ok_iff.mp h
            exact .answers ⟨halive, hunrejected⟩ hgoes hanswer hpending hsays hsigned hdated
          · rename_i hanswer
            split at h
            · rename_i hrequest
              unfold request at h
              split at h
              · cases h
              · rename_i hfree
                cases h
                exact .asks ⟨halive, hunrejected⟩ hgoes (by simpa using hanswer) hrequest hfree
            · rename_i hrequest
              cases h
              exact .passes ⟨halive, hunrejected⟩
                ⟨hgoes, by simpa using hanswer, by simpa using hrequest⟩
  · intro h
    cases h with
    | ends halive hmarks => simp [step, halive, hmarks]
    | answers hopen hgoes hanswer hpending hsays hsigned hdated =>
      simp only [step, hopen.1, hgoes, hopen.2, hanswer, if_true, if_false, Bool.false_eq_true]
      exact resolve_eq_ok_iff.mpr ⟨_, _, hpending, hsays, hsigned, hdated, rfl⟩
    | asks hopen hgoes hanswer hrequest hfree =>
      simp [step, hopen.1, hgoes, hopen.2, hanswer, hrequest, request, hfree]
    | passes hopen hneutral =>
      simp [step, hopen.1, hopen.2, hneutral.1, hneutral.2.1, hneutral.2.2]

namespace Moves

variable {p q : RunState} {event : Event}

theorem alive (h : p.Moves event q) : p.status.isTerminal = false := by
  cases h with
  | ends halive _ => exact halive
  | answers hopen => exact hopen.1
  | asks hopen => exact hopen.1
  | passes hopen => exact hopen.1

/-- Only the end of a run can follow a rejection. -/
theorem isOpen (h : p.Moves event q) (hgoes : event.ending? = none) : p.IsOpen := by
  cases h with
  | ends _ hmarks => rw [hgoes] at hmarks; cases hmarks
  | answers hopen => exact hopen
  | asks hopen => exact hopen
  | passes hopen => exact hopen

theorem coherent (h : p.Moves event q) (hp : p.Coherent) : q.Coherent := by
  cases h with
  | ends _ hmarks =>
    have hterminal := Event.isTerminal_of_ending? hmarks
    constructor
    · intro hpaused
      simp only at hpaused
      rw [hpaused] at hterminal
      cases hterminal
    · simp
  | answers _ _ _ _ hsays =>
    rcases hsays with ⟨_, rfl⟩ | ⟨_, rfl⟩ <;> simp [Coherent]
  | asks => simp [Coherent]
  | passes => exact hp.pass

/-- An event that ends no run leaves none that has ended. -/
theorem not_isTerminal (h : p.Moves event q) (hgoes : event.ending? = none) :
    q.status.isTerminal = false := by
  cases h with
  | ends _ hmarks => rw [hgoes] at hmarks; cases hmarks
  | answers _ _ _ _ hsays => exact hsays.not_isTerminal
  | asks => rfl
  | passes hopen => exact hopen.pass.1

theorem pending_of_isAnswer (h : p.Moves event q) (hgoes : event.ending? = none)
    (hanswer : event.isAnswer = true) : p.pending.isSome = true ∧ q.pending = none := by
  cases h with
  | ends => exact absurd ‹event.ending? = some _› (by simp [hgoes])
  | answers _ _ _ hpending => simp [hpending]
  | asks _ _ hno => rw [hanswer] at hno; cases hno
  | passes _ hneutral => exact absurd hneutral.2.1 (by simp [hanswer])

theorem pending_of_isRequest (h : p.Moves event q) (hgoes : event.ending? = none)
    (hanswer : event.isAnswer = false) (hrequest : event.isRequest = true) :
    p.pending = none ∧ q.pending = some event.toOpenRequest := by
  cases h with
  | ends => exact absurd ‹event.ending? = some _› (by simp [hgoes])
  | answers _ _ hyes => rw [hanswer] at hyes; cases hyes
  | asks _ _ _ _ hfree => exact ⟨hfree, rfl⟩
  | passes _ hneutral => exact absurd hneutral.2.2 (by simp [hrequest])

/-- No request is open behind an event of the kind for answers. -/
theorem pending_of_kind (h : p.Moves event q) (hkind : event.kind = .approvalResolved) :
    q.pending = none := by
  have hanswer : event.isAnswer = true := by
    rw [Event.isAnswer, hkind]
    rfl
  cases h with
  | ends => rfl
  | answers => rfl
  | asks _ _ hno =>
    rw [hanswer] at hno
    cases hno
  | passes _ hneutral =>
    have hno := hneutral.2.1
    rw [hanswer] at hno
    cases hno

/-- An answer that ends no run says what the answer is. -/
theorem isResolved (h : p.Moves event q) (hgoes : event.ending? = none)
    (hanswer : event.isAnswer = true) : event.approval.status.isResolved = true := by
  cases h with
  | ends _ hmarks =>
    rw [hgoes] at hmarks
    cases hmarks
  | answers _ _ _ _ hsays =>
    rcases hsays with ⟨hstatus, -⟩ | ⟨hstatus, -⟩
    · rw [hstatus]
      rfl
    · rw [hstatus]
      rfl
  | asks _ _ hno =>
    rw [hanswer] at hno
    cases hno
  | passes _ hneutral =>
    have hno := hneutral.2.1
    rw [hanswer] at hno
    cases hno

theorem eq_pass (h : p.Moves event q) (hneutral : event.IsNeutral) : q = p.pass := by
  cases h with
  | ends _ hmarks => rw [hneutral.1] at hmarks; cases hmarks
  | answers _ _ hyes => rw [hneutral.2.1] at hyes; cases hyes
  | asks _ _ _ hyes => rw [hneutral.2.2] at hyes; cases hyes
  | passes => rfl

/-- A run is rejected by an answer that says so and by nothing else. -/
theorem of_rejected (h : p.Moves event q) (hq : q.status = .rejected) :
    event.isAnswer = true ∧ event.approval.status = .rejected := by
  cases h with
  | ends _ hmarks =>
    have hterminal := Event.isTerminal_of_ending? hmarks
    simp only at hq
    rw [hq] at hterminal
    cases hterminal
  | answers _ _ hanswer _ hsays =>
    rcases hsays with ⟨_, rfl⟩ | ⟨hstatus, _⟩
    · cases hq
    · exact ⟨hanswer, hstatus⟩
  | asks => cases hq
  | passes hopen => exact absurd hq hopen.pass.2

end Moves

end RunState

end RunLedger
