/-
  Proofs/Run/Insertion.lean --- a history with one more event in it.

  WHAT THIS FILE IS FOR.  An event that is recorded late may be read early, and
  then the status of its run is made anew from all that follows.  There are four
  ways in which a history can still have a status afterwards, one for each line
  of the diagram: `RunState.Insertion` lists them.  The end of a run, an answer
  and a request are only read where nothing but neutral events follows; a
  neutral event may be read anywhere but right behind a rejection, and what
  follows it does not notice.
-/
import RunLedger.Proofs.Run.Moves

set_option autoImplicit false

namespace RunLedger.RunState

/-! ## Histories step by step -/

@[simp] theorem steps_nil (p : RunState) : p.steps [] = .ok p := rfl

theorem steps_cons_eq_ok_iff {p q : RunState} {event : Event} {rest : List Event} :
    p.steps (event :: rest) = .ok q ↔ ∃ m, p.Moves event m ∧ m.steps rest = .ok q := by
  rw [steps]
  cases hstep : p.step event with
  | error conflict =>
    simp only [reduceCtorEq, false_iff]
    rintro ⟨m, hmoves, -⟩
    rw [step_eq_ok_iff.mpr hmoves] at hstep
    cases hstep
  | ok m =>
    constructor
    · exact fun h => ⟨m, step_eq_ok_iff.mp hstep, h⟩
    · rintro ⟨m', hmoves, h⟩
      rw [step_eq_ok_iff.mpr hmoves] at hstep
      cases hstep
      exact h

theorem steps_append_eq_ok_iff {p q : RunState} {first rest : List Event} :
    p.steps (first ++ rest) = .ok q ↔ ∃ m, p.steps first = .ok m ∧ m.steps rest = .ok q := by
  induction first generalizing p with
  | nil => simp [steps]
  | cons event first ih =>
    rw [List.cons_append, steps_cons_eq_ok_iff]
    constructor
    · rintro ⟨m, hmoves, h⟩
      obtain ⟨n, hfirst, hrest⟩ := ih.mp h
      exact ⟨n, steps_cons_eq_ok_iff.mpr ⟨m, hmoves, hfirst⟩, hrest⟩
    · rintro ⟨n, hfirst, hrest⟩
      obtain ⟨m, hmoves, hfirst⟩ := steps_cons_eq_ok_iff.mp hfirst
      exact ⟨m, hmoves, ih.mpr ⟨n, hfirst, hrest⟩⟩

theorem steps_append_of_ok {p m : RunState} {first : List Event} (h : p.steps first = .ok m)
    (rest : List Event) : p.steps (first ++ rest) = m.steps rest := by
  induction first generalizing p with
  | nil =>
    cases h
    rfl
  | cons event first ih =>
    obtain ⟨n, hmoves, hfirst⟩ := steps_cons_eq_ok_iff.mp h
    rw [List.cons_append, steps, step_eq_ok_iff.mpr hmoves]
    exact ih hfirst

theorem steps_concat_eq_ok_iff {p q : RunState} {first : List Event} {event : Event} :
    p.steps (first ++ [event]) = .ok q ↔ ∃ m, p.steps first = .ok m ∧ m.Moves event q := by
  simp only [steps_append_eq_ok_iff, steps_cons_eq_ok_iff, steps_nil, Except.ok.injEq,
    exists_eq_right]

theorem coherent_of_steps {p q : RunState} {events : List Event} (hp : p.Coherent)
    (h : p.steps events = .ok q) : q.Coherent := by
  induction events generalizing p with
  | nil =>
    cases h
    exact hp
  | cons event rest ih =>
    obtain ⟨m, hmoves, hrest⟩ := steps_cons_eq_ok_iff.mp h
    exact ih (hmoves.coherent hp) hrest

theorem eq_nil_of_steps {p q : RunState} {events : List Event}
    (hended : p.status.isTerminal = true) (h : p.steps events = .ok q) : events = [] := by
  cases events with
  | nil => rfl
  | cons event rest =>
    obtain ⟨m, hmoves, -⟩ := steps_cons_eq_ok_iff.mp h
    rw [hmoves.alive] at hended
    cases hended

/-- Only the last event of a history can mark its end. -/
theorem ending?_eq_none_of_steps {p q : RunState} {event : Event} {rest : List Event}
    (h : p.steps (event :: rest) = .ok q) (halive : q.status.isTerminal = false) :
    event.ending? = none := by
  obtain ⟨m, hmoves, hrest⟩ := steps_cons_eq_ok_iff.mp h
  cases hmoves with
  | ends _ hmarks =>
    have hended := Event.isTerminal_of_ending? hmarks
    obtain rfl := eq_nil_of_steps hended hrest
    cases hrest
    rw [halive] at hended
    cases hended
  | answers _ hgoes => exact hgoes
  | asks _ hgoes => exact hgoes
  | passes _ hneutral => exact hneutral.1

/-- The open request of a run was asked for by an event of its history. -/
theorem exists_of_pending {p q : RunState} {events : List Event} {request : OpenRequest}
    (h : p.steps events = .ok q) (hpending : q.pending = some request) :
    p.pending = some request ∨ ∃ event ∈ events, event.isRequest = true ∧
      event.toOpenRequest = request := by
  induction events generalizing p with
  | nil =>
    cases h
    exact .inl hpending
  | cons event rest ih =>
    obtain ⟨m, hmoves, hrest⟩ := steps_cons_eq_ok_iff.mp h
    rcases ih hrest with hm | ⟨asker, hmem, hasker⟩
    · cases hmoves with
      | ends => cases hm
      | answers => cases hm
      | asks _ _ _ hrequest => exact .inr ⟨event, by simp, hrequest, Option.some.inj hm⟩
      | passes => exact .inl (pass_pending p ▸ hm)
    · exact .inr ⟨asker, List.mem_cons_of_mem event hmem, hasker⟩

/-- A history that ends with a rejected run ends with the answer that rejects it. -/
theorem exists_rejection {p q : RunState} {events : List Event}
    (h : p.steps events = .ok q) (hrejected : q.status = .rejected)
    (hp : p.status ≠ .rejected) :
    ∃ first rejection, events = first ++ [rejection] ∧ rejection.isAnswer = true ∧
      rejection.approval.status = .rejected := by
  rcases List.eq_nil_or_concat events with rfl | ⟨first, rejection, rfl⟩
  · cases h
    exact absurd hrejected hp
  · rw [List.concat_eq_append] at h ⊢
    obtain ⟨m, -, hmoves⟩ := steps_concat_eq_ok_iff.mp h
    exact ⟨first, rejection, rfl, hmoves.of_rejected hrejected⟩

/-! ## Neutral events -/

/-- What follows an event that has just passed by an open run does not notice it. -/
theorem steps_pass {p : RunState} (hopen : p.IsOpen) (event : Event) (rest : List Event) :
    p.pass.steps (event :: rest) = p.steps (event :: rest) := by
  simp only [steps, step_pass hopen]

/-- The state after neutral events: only the first of them can change it. -/
def passAll (p : RunState) (events : List Event) : RunState :=
  if events.isEmpty then p else p.pass

@[simp] theorem passAll_nil (p : RunState) : p.passAll [] = p := rfl

@[simp] theorem passAll_cons (p : RunState) (event : Event) (rest : List Event) :
    p.passAll (event :: rest) = p.pass := rfl

@[simp] theorem passAll_pending (p : RunState) (events : List Event) :
    (p.passAll events).pending = p.pending := by
  cases events with
  | nil => rfl
  | cons => exact pass_pending p

theorem eq_passAll_of_steps {p q : RunState} {events : List Event}
    (hneutral : ∀ event ∈ events, event.IsNeutral) (h : p.steps events = .ok q) :
    q = p.passAll events := by
  induction events generalizing p with
  | nil =>
    cases h
    rfl
  | cons event rest ih =>
    obtain ⟨m, hmoves, hrest⟩ := steps_cons_eq_ok_iff.mp h
    obtain rfl := hmoves.eq_pass (hneutral event List.mem_cons_self)
    have hq := ih (fun e he => hneutral e (List.mem_cons_of_mem event he)) hrest
    cases rest with
    | nil => exact hq
    | cons => exact hq.trans (pass_pass p)

/-- When one of two runs waits and the other does not, the events that both can take are
neutral: the first signal among them would be refused by one of the two. -/
theorem neutral_of_pending_ne {p q p' q' : RunState} {events : List Event}
    (h : p.steps events = .ok q) (h' : p'.steps events = .ok q')
    (halive : q.status.isTerminal = false)
    (hdiffer : p.pending.isSome ≠ p'.pending.isSome) :
    ∀ event ∈ events, event.IsNeutral := by
  induction events generalizing p p' with
  | nil => simp
  | cons event rest ih =>
    have hgoes := ending?_eq_none_of_steps h halive
    obtain ⟨m, hmoves, hrest⟩ := steps_cons_eq_ok_iff.mp h
    obtain ⟨m', hmoves', hrest'⟩ := steps_cons_eq_ok_iff.mp h'
    have hneutral : event.IsNeutral := by
      cases hanswer : event.isAnswer with
      | true =>
        have hwaits := (hmoves.pending_of_isAnswer hgoes hanswer).1
        have hwaits' := (hmoves'.pending_of_isAnswer hgoes hanswer).1
        exact absurd (hwaits.trans hwaits'.symm) hdiffer
      | false =>
        cases hrequest : event.isRequest with
        | true =>
          have hfree := (hmoves.pending_of_isRequest hgoes hanswer hrequest).1
          have hfree' := (hmoves'.pending_of_isRequest hgoes hanswer hrequest).1
          exact absurd (by rw [hfree, hfree']) hdiffer
        | false => exact ⟨hgoes, hanswer, hrequest⟩
    obtain rfl := hmoves.eq_pass hneutral
    obtain rfl := hmoves'.eq_pass hneutral
    rw [← pass_pending p, ← pass_pending p'] at hdiffer
    intro e he
    rcases List.mem_cons.mp he with rfl | he
    · exact hneutral
    · exact ih hrest hrest' hdiffer e he

/-! ## Insertion -/

/-- `Insertion event a after p q`: a run in the state `a` that takes the events `after` to `p`
takes them to `q` when `event` is read before them. -/
inductive Insertion (event : Event) : RunState → List Event → RunState → RunState → Prop
  /-- the event ends the run and is read last -/
  | ends {a : RunState} {status : RunStatus} (alive : a.status.isTerminal = false)
      (marks : event.ending? = some status) :
      Insertion event a [] a ⟨status, none⟩
  /-- the event answers the open request, which no event after it has done -/
  | answers {a : RunState} {after : List Event} {request : OpenRequest} {status : RunStatus}
      (isOpen : a.IsOpen) (goesOn : event.ending? = none) (isAnswer : event.isAnswer = true)
      (pending : a.pending = some request) (verdict : event.Says status)
      (quiet : ∀ e ∈ after, e.IsNeutral) (last : status = .rejected → after = []) :
      Insertion event a after (a.passAll after) (passAll ⟨status, none⟩ after)
  /-- the event asks for an approval, and no event after it does -/
  | asks {a : RunState} {after : List Event}
      (isOpen : a.IsOpen) (goesOn : event.ending? = none) (noAnswer : event.isAnswer = false)
      (isRequest : event.isRequest = true) (free : a.pending = none)
      (quiet : ∀ e ∈ after, e.IsNeutral) :
      Insertion event a after (a.passAll after) ⟨.paused, some event.toOpenRequest⟩
  /-- the event passes by -/
  | passes {a p : RunState} {after : List Event} (isOpen : a.IsOpen)
      (neutral : event.IsNeutral) (steps : a.steps after = .ok p) :
      Insertion event a after p (if after.isEmpty then a.pass else p)

/-- The only ways to put an event into a history of a run that has not ended. -/
theorem insertion_of_steps {a p q : RunState} {event : Event} {after : List Event}
    (h : a.steps after = .ok p) (halive : p.status.isTerminal = false)
    (hnew : a.steps (event :: after) = .ok q) : Insertion event a after p q := by
  obtain ⟨m, hmoves, hafter⟩ := steps_cons_eq_ok_iff.mp hnew
  cases hmoves with
  | ends ha hmarks =>
    obtain rfl := eq_nil_of_steps (Event.isTerminal_of_ending? hmarks) hafter
    cases h
    cases hafter
    exact .ends ha hmarks
  | answers hopen hgoes hanswer hpending hsays =>
    have hquiet : ∀ e ∈ after, e.IsNeutral :=
      neutral_of_pending_ne h hafter halive (by simp [hpending])
    obtain rfl := eq_passAll_of_steps hquiet h
    obtain rfl := eq_passAll_of_steps hquiet hafter
    refine .answers hopen hgoes hanswer hpending hsays hquiet ?_
    rintro rfl
    cases after with
    | nil => rfl
    | cons e rest =>
      obtain ⟨n, hmoves, -⟩ := steps_cons_eq_ok_iff.mp hafter
      exact absurd rfl (hmoves.isOpen (hquiet e List.mem_cons_self).1).2
  | asks hopen hgoes hanswer hrequest hfree =>
    have hquiet : ∀ e ∈ after, e.IsNeutral :=
      neutral_of_pending_ne h hafter halive (by simp [hfree])
    obtain rfl := eq_passAll_of_steps hquiet h
    obtain rfl := eq_passAll_of_steps hquiet hafter
    have hpaused : passAll ⟨.paused, some event.toOpenRequest⟩ after =
        ⟨.paused, some event.toOpenRequest⟩ := by
      cases after with
      | nil => rfl
      | cons => rfl
    rw [hpaused]
    exact .asks hopen hgoes hanswer hrequest hfree hquiet
  | passes hopen hneutral =>
    have hq : q = if after.isEmpty then a.pass else p := by
      cases after with
      | nil =>
        cases hafter
        rfl
      | cons e rest =>
        rw [steps_pass hopen, h] at hafter
        cases hafter
        rfl
    rw [hq]
    exact .passes hopen hneutral h

end RunLedger.RunState
