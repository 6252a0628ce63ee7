/-
  Proofs/Run/GatedHistory.lean --- histories of which every event passes the gate.

  WHAT THIS FILE IS FOR.  The gate looks at an event once, against the history
  that its run has at that moment.  Events recorded later may be read earlier, so
  that in the end the event stands behind another history than the one it was
  checked against.  It would still pass: `GatedHistory` says so of every event of
  a history, and putting one more event that the gate lets through into its place
  keeps it.
-/
import RunLedger.Proofs.Run.Insertion
import RunLedger.Proofs.Run.Placement

set_option autoImplicit false

namespace RunLedger

open Record (InTimeOrder)

/-! ## What the gate asks for -/

namespace Gate

theorem violations_eq_nil_iff {event : Event} {history : List Record} :
    violations event history = [] ↔
      ∃ current final, RunState.ofRecords history = .ok current ∧
        current.status.isTerminal = false ∧ kindRules event history current = [] ∧
        RunState.ofEvents (historyWith event history) = .ok final := by
  unfold violations
  cases hcurrent : RunState.ofRecords history with
  | error conflict => simp
  | ok current =>
    cases hended : current.status.isTerminal with
    | true => simp [endedRules, hended]
    | false =>
      cases hkind : kindRules event history current with
      | cons violation rest => simp [endedRules, hended, hkind]
      | nil =>
        cases hfinal : RunState.ofEvents (historyWith event history) with
        | error conflict => simp [endedRules, hended, hkind]
        | ok final => simp [endedRules, hended, hkind]

/-- An event that is not earlier than any of its history passes exactly if it follows a line of
the diagram from the state of the history, and keeps the rules for its kind. -/
theorem violations_eq_nil_iff_of_last {event : Event} {history : List Record}
    (hlast : ∀ r ∈ history, r.timestamp ≤ event.timestamp) :
    violations event history = [] ↔
      ∃ current final, RunState.ofRecords history = .ok current ∧
        kindRules event history current = [] ∧ current.Moves event final := by
  have hwith : historyWith event history = history.map Record.event ++ [event] := by
    have h := (Event.ReadsBetween.of_end hlast).historyWith_eq
    rwa [List.append_nil] at h
  rw [violations_eq_nil_iff, hwith]
  constructor
  · rintro ⟨current, final, hcurrent, -, hkind, hfinal⟩
    obtain ⟨m, hm, hmoves⟩ := RunState.steps_concat_eq_ok_iff.mp hfinal
    have hm' : RunState.ofRecords history = .ok m := hm
    rw [hcurrent] at hm'
    cases hm'
    exact ⟨current, final, hcurrent, hkind, hmoves⟩
  · rintro ⟨current, final, hcurrent, hkind, hmoves⟩
    exact ⟨current, final, hcurrent, hmoves.alive, hkind,
      RunState.steps_concat_eq_ok_iff.mpr ⟨current, hcurrent, hmoves⟩⟩

/-- The rules for a kind look at a run through its open request only. -/
theorem kindRules_congr {event : Event} {history history' : List Record} {p p' : RunState}
    (hpending : p.pending = p'.pending)
    (hdecision : ∀ request, p.pending = some request →
      decisionOf? history request = decisionOf? history' request) :
    kindRules event history p = kindRules event history' p' := by
  unfold kindRules
  cases event.kind <;> simp only [summaryRules, hpending]
  case approvalResolved =>
    unfold answerRules
    rw [← hpending]
    cases h : p.pending with
    | none => rfl
    | some request => simp only [hdecision request h]

/-- The rules for an event that neither ends a run nor answers look at the event only. -/
theorem kindRules_eq_of_noAnswer {event : Event} (hgoes : event.ending? = none)
    (hanswer : event.isAnswer = false) (history history' : List Record) (p p' : RunState) :
    kindRules event history p = kindRules event history' p' := by
  unfold kindRules
  cases hkind : event.kind <;> try rfl
  case approvalResolved => simp [Event.isAnswer, hkind] at hanswer
  case summary => simp [Event.ending?, hkind] at hgoes

/-- An answer keeps the rules for answers exactly if there is a request to answer, it belongs to the
policy decision of the request, if that belongs to one, and says who answered and when. -/
theorem answerRules_eq_nil_iff {event : Event} {history : List Record} {current : RunState} :
    answerRules event history current = [] ↔
      (∃ request, current.pending = some request ∧
        ∀ decision, decisionOf? history request = some decision →
          event.decision? = some decision) ∧
      Text.isBlankOption event.approval.resolvedBy = false ∧
      event.approval.resolvedAt.isSome = true := by
  unfold answerRules
  rw [List.append_eq_nil_iff, List.append_eq_nil_iff, and_assoc]
  refine and_congr ?_ (and_congr ?_ ?_)
  · cases current.pending with
    | none => simp
    | some request => cases hdecision : decisionOf? history request <;> simp [hdecision]
  · cases Text.isBlankOption event.approval.resolvedBy <;> simp
  · cases event.approval.resolvedAt <;> simp

/-- The decision of a request is found in the part of a history that holds the request. -/
theorem decisionOf?_append {first rest : List Record} {request : OpenRequest}
    (hmem : request.eventId ∈ first.map Record.eventId) :
    decisionOf? (first ++ rest) request = decisionOf? first request := by
  obtain ⟨r, hr, hid⟩ := List.mem_map.mp hmem
  have hfound : (first.find? fun r => r.eventId == request.eventId).isSome = true :=
    List.find?_isSome.mpr ⟨r, hr, by simp [hid]⟩
  unfold decisionOf?
  rw [List.find?_append, Option.or_of_isSome hfound]

/-- A record with another identifier does not matter to the decision of a request. -/
theorem decisionOf?_insert {first rest : List Record} {r : Record} {request : OpenRequest}
    (hid : r.eventId ≠ request.eventId) :
    decisionOf? (first ++ r :: rest) request = decisionOf? (first ++ rest) request := by
  have hskip : (r.eventId == request.eventId) = false := by simp [hid]
  simp only [decisionOf?, List.find?_append, List.find?_cons, hskip]

end Gate

/-! ## Gated histories -/

/-- Every event of a history passes the gate against the records before it.  The history is in
order of time and has no identifier twice. -/
structure GatedHistory (history : List Record) : Prop where
  ordered : InTimeOrder history
  distinct : (history.map Record.eventId).Nodup
  passes : ∀ before r after, history = before ++ r :: after →
    Gate.violations r.event before = []

theorem gatedHistory_nil : GatedHistory [] where
  ordered := List.Pairwise.nil
  distinct := List.nodup_nil
  passes before r after h := by simp at h

/-- What an event of a gated history found: the records before it have a status, the event keeps
the rules for its kind there, and follows a line of the diagram. -/
theorem GatedHistory.exists_moves {history before after : List Record} {r : Record}
    (h : GatedHistory history) (hsplit : history = before ++ r :: after) :
    ∃ p q, RunState.ofRecords before = .ok p ∧ Gate.kindRules r.event before p = [] ∧
      p.Moves r.event q := by
  have hlast : ∀ x ∈ before, x.timestamp ≤ r.event.timestamp := fun x hx =>
    (List.pairwise_append.mp (hsplit ▸ h.ordered)).2.2 x hx r List.mem_cons_self
  exact (Gate.violations_eq_nil_iff_of_last hlast).mp (h.passes before r after hsplit)

/-- A gated history has a status. -/
theorem GatedHistory.exists_state {history : List Record} (h : GatedHistory history) :
    ∃ state, RunState.ofRecords history = .ok state := by
  rcases List.eq_nil_or_concat history with rfl | ⟨first, r, rfl⟩
  · exact ⟨.start, rfl⟩
  · rw [List.concat_eq_append] at h ⊢
    obtain ⟨current, final, hcurrent, -, hmoves⟩ := h.exists_moves rfl
    refine ⟨final, ?_⟩
    rw [RunState.ofRecords, List.map_append]
    exact RunState.steps_concat_eq_ok_iff.mpr ⟨current, hcurrent, hmoves⟩

/-- Where an item of a list with one more item in it stands: before that item, at its place, or
behind it. -/
theorem split_insert {α : Type} {first rest before after : List α} {x y : α}
    (h : first ++ x :: rest = before ++ y :: after) :
    (∃ middle, first = before ++ y :: middle) ∨ (before = first ∧ y = x) ∨
      ∃ middle, before = first ++ x :: middle ∧ rest = middle ++ y :: after := by
  rcases List.append_eq_append_iff.mp h with ⟨middle, rfl, hmiddle⟩ | ⟨middle, rfl, hmiddle⟩
  · cases middle with
    | nil =>
      obtain ⟨rfl, -⟩ := List.cons.inj hmiddle
      exact .inr (.inl ⟨by simp, rfl⟩)
    | cons z middle =>
      obtain ⟨rfl, rfl⟩ := List.cons.inj hmiddle
      exact .inr (.inr ⟨middle, rfl, rfl⟩)
  · cases middle with
    | nil =>
      obtain ⟨rfl, -⟩ := List.cons.inj hmiddle
      exact .inr (.inl ⟨by simp, rfl⟩)
    | cons z middle =>
      obtain ⟨rfl, -⟩ := List.cons.inj hmiddle
      exact .inl ⟨middle, rfl⟩

/-! ## One more event -/

/-- The states of a run around the place of an event: `a` with the records before the place, `p`
with all its records, and `q` with the event among them. -/
structure Passage (event : Event) (before after : List Record) (a p q : RunState) : Prop where
  first : RunState.ofRecords before = .ok a
  whole : RunState.ofRecords (before ++ after) = .ok p
  alive : p.status.isTerminal = false
  rest : a.steps (after.map Record.event) = .ok p
  anew : a.steps (event :: after.map Record.event) = .ok q
  kind : Gate.kindRules event (before ++ after) p = []

/-- An event that passes the gate has its place in the history. -/
theorem exists_passage {before after : List Record} {event : Event}
    (hplace : event.ReadsBetween before after)
    (hgate : Gate.violations event (before ++ after) = []) :
    ∃ a p q, Passage event before after a p q := by
  obtain ⟨p, q, hp, halive, hkind, hq⟩ := Gate.violations_eq_nil_iff.mp hgate
  rw [hplace.historyWith_eq] at hq
  have hp' := hp
  rw [RunState.ofRecords, List.map_append] at hp'
  obtain ⟨a, ha, hafter⟩ := RunState.steps_append_eq_ok_iff.mp hp'
  rw [RunState.ofEvents, RunState.steps_append_of_ok ha] at hq
  exact ⟨a, p, q, ha, hp, halive, hafter, hq, hkind⟩

namespace Passage

variable {event : Event} {before after : List Record} {a p q : RunState}

theorem insertion (h : Passage event before after a p q) :
    RunState.Insertion event a (after.map Record.event) p q :=
  RunState.insertion_of_steps h.rest h.alive h.anew

theorem with_event {r : Record} (h : Passage r.event before after a p q) :
    RunState.ofRecords (before ++ r :: after) = .ok q := by
  rw [RunState.ofRecords, List.map_append, List.map_cons]
  exact RunState.steps_append_eq_ok_iff.mpr ⟨a, h.first, h.anew⟩

end Passage

/-- The open request of a run is one of its records. -/
theorem mem_eventIds_of_pending {history : List Record} {p : RunState} {request : OpenRequest}
    (h : RunState.ofRecords history = .ok p) (hpending : p.pending = some request) :
    request.eventId ∈ history.map Record.eventId := by
  rcases RunState.exists_of_pending h hpending with hstart | ⟨event, hmem, -, rfl⟩
  · cases hstart
  · obtain ⟨r, hr, rfl⟩ := List.mem_map.mp hmem
    exact List.mem_map.mpr ⟨r, hr, rfl⟩

/-- The rules for its kind that an event keeps against the whole history, it keeps against the
part that is read before it. -/
theorem kindRules_before {before after : List Record} {event : Event} {a p q : RunState}
    (h : Passage event before after a p q) : Gate.kindRules event before a = [] := by
  have hkind := h.kind
  have hinsertion := h.insertion
  cases hevents : after.map Record.event with
  | nil =>
    obtain rfl := List.map_eq_nil_iff.mp hevents
    have hp : a = p := by
      rw [hevents] at hinsertion
      cases hinsertion with
      | ends => rfl
      | answers => rfl
      | asks => rfl
      | passes _ _ hsteps => exact Except.ok.inj hsteps
    rwa [List.append_nil, ← hp] at hkind
  | cons next rest =>
    rw [hevents] at hinsertion
    cases hinsertion with
    | answers _ _ _ hpending =>
      rw [← hkind]
      refine Gate.kindRules_congr (RunState.passAll_pending a _).symm ?_
      intro request hrequest
      exact (Gate.decisionOf?_append (mem_eventIds_of_pending h.first hrequest)).symm
    | asks _ hgoes hanswer =>
      rw [← hkind]
      exact Gate.kindRules_eq_of_noAnswer hgoes hanswer _ _ _ _
    | passes _ hneutral =>
      rw [← hkind]
      exact Gate.kindRules_eq_of_noAnswer hneutral.1 hneutral.2.1 _ _ _ _

/-- The rules for its kind that an event kept before another one was put into its history, it
keeps afterwards. -/
theorem kindRules_behind {before middle rest : List Record} {r x : Record}
    {a p q s s' : RunState} (ha : RunState.ofRecords before = .ok a)
    (hinsertion : RunState.Insertion r.event a ((middle ++ x :: rest).map Record.event) p q)
    (hs : a.steps (middle.map Record.event) = .ok s)
    (hs' : a.steps (r.event :: middle.map Record.event) = .ok s')
    (hnew : r.eventId ∉ (before ++ middle).map Record.eventId)
    (hkind : Gate.kindRules x.event (before ++ middle) s = []) :
    Gate.kindRules x.event (before ++ r :: middle) s' = [] := by
  have hmem : x.event ∈ (middle ++ x :: rest).map Record.event := by simp
  cases hevents : (middle ++ x :: rest).map Record.event with
  | nil => simp at hevents
  | cons next others =>
    rw [hevents] at hinsertion hmem
    cases hinsertion with
    | answers _ _ _ _ _ hquiet =>
      rw [← hkind]
      exact Gate.kindRules_eq_of_noAnswer (hquiet _ hmem).1 (hquiet _ hmem).2.1 _ _ _ _
    | asks _ _ _ _ _ hquiet =>
      rw [← hkind]
      exact Gate.kindRules_eq_of_noAnswer (hquiet _ hmem).1 (hquiet _ hmem).2.1 _ _ _ _
    | passes hopen hneutral =>
      -- The two states wait for the same answer, because a neutral event has passed by one.
      obtain ⟨m, hmoves, hm⟩ := RunState.steps_cons_eq_ok_iff.mp hs'
      obtain rfl := hmoves.eq_pass hneutral
      have hpending : s'.pending = s.pending := by
        cases hmiddle : middle.map Record.event with
        | nil =>
          rw [hmiddle] at hs hm
          cases hs
          cases hm
          exact RunState.pass_pending a
        | cons e es =>
          rw [hmiddle] at hs hm
          rw [RunState.steps_pass hopen, hs] at hm
          cases hm
          rfl
      rw [← hkind]
      refine Gate.kindRules_congr hpending ?_
      intro request hrequest
      refine Gate.decisionOf?_insert ?_
      have hhistory : RunState.ofRecords (before ++ middle) = .ok s := by
        rw [RunState.ofRecords, List.map_append]
        exact RunState.steps_append_eq_ok_iff.mpr ⟨a, ha, hs⟩
      intro hid
      exact hnew (hid ▸ mem_eventIds_of_pending hhistory (hpending ▸ hrequest))

/-- A record that passed the gate passes it when another one has been put before it. -/
theorem passes_behind {before middle rest : List Record} {r x : Record} {a p q : RunState}
    (hpassage : Passage r.event before (middle ++ x :: rest) a p q)
    (hpassed : Gate.violations x.event (before ++ middle) = [])
    (hlast : ∀ y ∈ before ++ r :: middle, y.timestamp ≤ x.event.timestamp)
    (hfresh : r.eventId ∉ (before ++ middle).map Record.eventId) :
    Gate.violations x.event (before ++ r :: middle) = [] := by
  have hold : ∀ y ∈ before ++ middle, y.timestamp ≤ x.event.timestamp := fun y hy => by
    refine hlast y ?_
    simp only [List.mem_append, List.mem_cons] at hy ⊢
    tauto
  obtain ⟨s, -, hs, hkind, -⟩ := (Gate.violations_eq_nil_iff_of_last hold).mp hpassed
  have hmiddle : a.steps (middle.map Record.event) = .ok s := by
    rw [← RunState.steps_append_of_ok hpassage.first, ← List.map_append]
    exact hs
  have hanew := hpassage.anew
  rw [List.map_append, List.map_cons, ← List.cons_append,
    RunState.steps_append_eq_ok_iff] at hanew
  obtain ⟨t, ht, hrest⟩ := hanew
  obtain ⟨u, hmoves, -⟩ := RunState.steps_cons_eq_ok_iff.mp hrest
  have hbehind : RunState.ofRecords (before ++ r :: middle) = .ok t := by
    rw [RunState.ofRecords, List.map_append]
    exact RunState.steps_append_eq_ok_iff.mpr ⟨a, hpassage.first, ht⟩
  exact (Gate.violations_eq_nil_iff_of_last hlast).mpr ⟨t, u, hbehind,
    kindRules_behind hpassage.first hpassage.insertion hmiddle ht hfresh hkind, hmoves⟩

/-- A history stays gated when an event that passes the gate is put into its place. -/
theorem GatedHistory.insert {before after : List Record} {r : Record}
    (h : GatedHistory (before ++ after)) (hplace : r.event.ReadsBetween before after)
    (hgate : Gate.violations r.event (before ++ after) = [])
    (hnew : r.eventId ∉ (before ++ after).map Record.eventId) :
    GatedHistory (before ++ r :: after) := by
  have hordered : InTimeOrder (before ++ r :: after) := hplace.inTimeOrder_insert h.ordered
  obtain ⟨a, p, q, hpassage⟩ := exists_passage hplace hgate
  refine ⟨hordered, ?_, ?_⟩
  · have hperm : (before ++ r :: after).Perm (r :: (before ++ after)) := List.perm_middle
    rw [(hperm.map Record.eventId).nodup_iff, List.map_cons, List.nodup_cons]
    exact ⟨hnew, h.distinct⟩
  · intro first x rest hsplit
    have hlast : ∀ y ∈ first, y.timestamp ≤ x.event.timestamp := fun y hy =>
      (List.pairwise_append.mp (hsplit ▸ hordered)).2.2 y hy x List.mem_cons_self
    rcases split_insert hsplit with ⟨middle, rfl⟩ | ⟨rfl, rfl⟩ | ⟨middle, rfl, rfl⟩
    · -- Nothing has changed before `x`.
      exact h.passes first x (middle ++ after) (by simp)
    · obtain ⟨m, hmoves, -⟩ := RunState.steps_cons_eq_ok_iff.mp hpassage.anew
      exact (Gate.violations_eq_nil_iff_of_last hlast).mpr
        ⟨a, m, hpassage.first, kindRules_before hpassage, hmoves⟩
    · refine passes_behind hpassage (h.passes (before ++ middle) x rest (by simp)) hlast ?_
      intro hmem
      apply hnew
      rw [← List.append_assoc, List.map_append]
      exact List.mem_append_left _ hmem

end RunLedger
