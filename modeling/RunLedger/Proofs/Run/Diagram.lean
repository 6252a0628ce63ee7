/-
  Proofs/Run/Diagram.lean --- the histories that the status diagram allows.

  WHAT THIS FILE IS FOR.  The status of a run is defined by a walk along the
  diagram, one event after the other.  Which histories can be walked, and where
  the walk ends, can be said without walking: only the last event ends the run,
  requests and answers take turns, every answer is complete, and nothing but an
  end stands behind a rejection.  The two descriptions agree, and a walk that
  breaks off does so at the first event that breaks one of these rules.
-/
import Mathlib.Data.List.Induction
import RunLedger.Proofs.Run.Insertion

set_option autoImplicit false

namespace RunLedger

/-! ## What an event is to a history -/

/-- The part that an event plays in the history of its run. -/
inductive EventRole where
  | ends (status : RunStatus)
  | answers
  | asks
  | passes
  deriving DecidableEq, Repr

namespace Event

/-- The part that an event plays: whoever ends the run does nothing else, and an answer asks for
nothing. -/
def role (event : Event) : EventRole :=
  match event.ending? with
  | some status => .ends status
  | none =>
    if event.isAnswer then .answers
    else if event.isRequest then .asks
    else .passes

/-- The event is one of the signals of an approval. -/
def isSignal (event : Event) : Bool := event.role = .answers || event.role = .asks

/-- An answer says which of the two it is, who gave it and when. -/
structure IsComplete (event : Event) : Prop where
  verdict : event.approval.status.isResolved = true
  signed : Text.isBlankOption event.approval.resolvedBy = false
  dated : event.approval.resolvedAt.isSome = true

/-- The status of a run that an answer leaves behind. -/
def verdict (event : Event) : RunStatus :=
  if event.approval.status = .rejected then .rejected else .approved

variable {event : Event}

theorem role_eq_ends_iff {status : RunStatus} :
    event.role = .ends status ↔ event.ending? = some status := by
  unfold role
  cases event.ending? <;> cases event.isAnswer <;> cases event.isRequest <;> simp

theorem role_eq_answers_iff :
    event.role = .answers ↔ event.ending? = none ∧ event.isAnswer = true := by
  unfold role
  cases event.ending? <;> cases event.isAnswer <;> cases event.isRequest <;> simp

theorem role_eq_asks_iff :
    event.role = .asks ↔
      event.ending? = none ∧ event.isAnswer = false ∧ event.isRequest = true := by
  unfold role
  cases event.ending? <;> cases event.isAnswer <;> cases event.isRequest <;> simp

theorem role_eq_passes_iff : event.role = .passes ↔ event.IsNeutral := by
  unfold role IsNeutral
  cases event.ending? <;> cases event.isAnswer <;> cases event.isRequest <;> simp

theorem says_iff {status : RunStatus} :
    event.Says status ↔ event.approval.status.isResolved = true ∧ status = event.verdict := by
  unfold Says verdict
  cases event.approval.status <;> simp [ApprovalStatus.isResolved]

theorem verdict_eq_rejected_iff : event.verdict = .rejected ↔ event.approval.status = .rejected := by
  unfold verdict
  split <;> simp_all

theorem verdict_not_isTerminal : event.verdict.isTerminal = false := by
  unfold verdict
  split <;> rfl

end Event

namespace RunState

variable {p q : RunState} {event : Event} {first events : List Event}

/-! ## One line for each part -/

theorem moves_iff_of_ends {status : RunStatus} (h : event.role = .ends status) :
    p.Moves event q ↔ p.status.isTerminal = false ∧ q = ⟨status, none⟩ := by
  have hmarks := Event.role_eq_ends_iff.mp h
  constructor
  · intro hmoves
    cases hmoves with
    | ends halive hmarks' =>
      rw [hmarks] at hmarks'
      cases hmarks'
      exact ⟨halive, rfl⟩
    | answers _ hgoes => simp [hmarks] at hgoes
    | asks _ hgoes => simp [hmarks] at hgoes
    | passes _ hneutral => exact absurd hneutral.1 (by simp [hmarks])
  · rintro ⟨halive, rfl⟩
    exact .ends halive hmarks

theorem moves_iff_of_answers (h : event.role = .answers) :
    p.Moves event q ↔
      p.IsOpen ∧ p.pending.isSome = true ∧ event.IsComplete ∧ q = ⟨event.verdict, none⟩ := by
  obtain ⟨hgoes, hanswer⟩ := Event.role_eq_answers_iff.mp h
  constructor
  · intro hmoves
    cases hmoves with
    | ends _ hmarks => simp [hgoes] at hmarks
    | answers hopen _ _ hpending hsays hsigned hdated =>
      obtain ⟨hresolved, rfl⟩ := Event.says_iff.mp hsays
      exact ⟨hopen, by simp [hpending], ⟨hresolved, hsigned, hdated⟩, rfl⟩
    | asks _ _ hno => simp [hanswer] at hno
    | passes _ hneutral => exact absurd hneutral.2.1 (by simp [hanswer])
  · rintro ⟨hopen, hwaits, hcomplete, rfl⟩
    obtain ⟨request, hpending⟩ := Option.isSome_iff_exists.mp hwaits
    exact .answers hopen hgoes hanswer hpending
      (Event.says_iff.mpr ⟨hcomplete.verdict, rfl⟩) hcomplete.signed hcomplete.dated

theorem moves_iff_of_asks (h : event.role = .asks) :
    p.Moves event q ↔
      p.IsOpen ∧ p.pending = none ∧ q = ⟨.paused, some event.toOpenRequest⟩ := by
  obtain ⟨hgoes, hanswer, hrequest⟩ := Event.role_eq_asks_iff.mp h
  constructor
  · intro hmoves
    cases hmoves with
    | ends _ hmarks => simp [hgoes] at hmarks
    | answers _ _ hyes => simp [hanswer] at hyes
    | asks hopen _ _ _ hfree => exact ⟨hopen, hfree, rfl⟩
    | passes _ hneutral => exact absurd hneutral.2.2 (by simp [hrequest])
  · rintro ⟨hopen, hfree, rfl⟩
    exact .asks hopen hgoes hanswer hrequest hfree

theorem moves_iff_of_passes (h : event.role = .passes) :
    p.Moves event q ↔ p.IsOpen ∧ q = p.pass := by
  have hneutral := Event.role_eq_passes_iff.mp h
  constructor
  · exact fun hmoves => ⟨hmoves.isOpen hneutral.1, hmoves.eq_pass hneutral⟩
  · rintro ⟨hopen, rfl⟩
    exact .passes hopen hneutral

/-! ## The rules of the diagram -/

/-- The requests and the answers of a history, in read order. -/
def signals (events : List Event) : List Event := events.filter Event.isSignal

/-- Requests and answers take turns, a request first. -/
def TakesTurns (events : List Event) : Prop :=
  ∀ i event, (signals events)[i]? = some event →
    event.role = if i % 2 = 0 then .asks else .answers

/-- A history that keeps to the diagram. -/
structure FollowsDiagram (events : List Event) : Prop where
  /-- only the last event ends the run -/
  ends : ∀ before event after status, events = before ++ event :: after →
    event.role = .ends status → after = []
  answers : ∀ event ∈ events, event.role = .answers → event.IsComplete
  turns : TakesTurns events
  /-- a rejection is last, or the end of the run is right behind it -/
  rejections : ∀ before event after, events = before ++ event :: after →
    event.role = .answers → event.approval.status = .rejected →
    after = [] ∨ ∃ next rest status, after = next :: rest ∧ next.role = .ends status

/-- The last signal of a history, if that is a request. -/
def lastAsker? (events : List Event) : Option Event :=
  (signals events).getLast?.filter fun event => event.role = .asks

/-- Where the signals of a history leave its run when something neutral is read behind them. -/
def resting (events : List Event) : RunState :=
  match lastAsker? events with
  | some asker => ⟨.paused, some asker.toOpenRequest⟩
  | none => start

/-- Where a history that keeps to the diagram leaves its run, told by its last event and by the
last of its signals. -/
def told (events : List Event) : RunState :=
  match events.getLast? with
  | some last =>
    match last.role with
    | .ends status => ⟨status, none⟩
    | .answers => ⟨last.verdict, none⟩
    | .asks => resting events
    | .passes => resting events
  | none => start

/-! ## The signals of a history -/

theorem signals_concat_of_isSignal (h : event.isSignal = true) :
    signals (first ++ [event]) = signals first ++ [event] := by
  simp [signals, List.filter_append, h]

theorem signals_concat_of_not_isSignal (h : event.isSignal = false) :
    signals (first ++ [event]) = signals first := by
  simp [signals, List.filter_append, h]

theorem lastAsker?_concat :
    lastAsker? (first ++ [event]) =
      match event.role with
      | .ends _ => lastAsker? first
      | .answers => none
      | .asks => some event
      | .passes => lastAsker? first := by
  cases hrole : event.role with
  | ends status =>
    rw [lastAsker?, signals_concat_of_not_isSignal (by simp [Event.isSignal, hrole]), lastAsker?]
  | answers =>
    rw [lastAsker?, signals_concat_of_isSignal (by simp [Event.isSignal, hrole])]
    simp [hrole]
  | asks =>
    rw [lastAsker?, signals_concat_of_isSignal (by simp [Event.isSignal, hrole])]
    simp [hrole]
  | passes =>
    rw [lastAsker?, signals_concat_of_not_isSignal (by simp [Event.isSignal, hrole]), lastAsker?]

/-- Where the signals take turns, the last of them is a request exactly if their number is odd. -/
theorem TakesTurns.isSome_lastAsker?_iff (h : TakesTurns events) :
    (lastAsker? events).isSome = true ↔ (signals events).length % 2 = 1 := by
  rcases List.eq_nil_or_concat (signals events) with hnil | ⟨earlier, last, hlast⟩
  · simp [lastAsker?, hnil]
  · rw [List.concat_eq_append] at hlast
    have hrole := h earlier.length last (by simp [hlast])
    simp only [lastAsker?, hlast, List.getLast?_append, List.getLast?_singleton, Option.some_or,
      List.length_append, List.length_singleton, Option.filter_some, hrole]
    rcases Nat.mod_two_eq_zero_or_one earlier.length with hparity | hparity
    · simp [hparity, Nat.add_mod]
    · simp [hparity, Nat.add_mod]

theorem takesTurns_concat_iff :
    TakesTurns (first ++ [event]) ↔
      TakesTurns first ∧
        (event.role = .answers → (lastAsker? first).isSome = true) ∧
        (event.role = .asks → lastAsker? first = none) := by
  cases hsignal : event.isSignal with
  | false =>
    have hno : event.role ≠ .answers ∧ event.role ≠ .asks := by
      simpa [Event.isSignal] using hsignal
    simp only [TakesTurns, signals_concat_of_not_isSignal hsignal, hno.1, hno.2,
      false_implies, and_true]
  | true =>
    have hsplit : TakesTurns (first ++ [event]) ↔ TakesTurns first ∧
        event.role = if (signals first).length % 2 = 0 then .asks else .answers := by
      unfold TakesTurns
      rw [signals_concat_of_isSignal hsignal]
      constructor
      · intro h
        refine ⟨fun i e hi => h i e ?_, h _ _ (by simp)⟩
        rw [List.getElem?_append_left (List.getElem?_eq_some_iff.mp hi).1, hi]
      · rintro ⟨hturns, hrole⟩ i e hi
        rcases Nat.lt_or_ge i (signals first).length with hlt | hge
        · rw [List.getElem?_append_left hlt] at hi
          exact hturns i e hi
        · rw [List.getElem?_append_right hge, List.getElem?_singleton] at hi
          split at hi
          · cases hi
            rwa [show i = (signals first).length by omega]
          · cases hi
    rw [hsplit]
    refine and_congr_right fun hturns => ?_
    have hodd := hturns.isSome_lastAsker?_iff
    have hkind : event.role = .answers ∨ event.role = .asks := by
      simpa [Event.isSignal] using hsignal
    rcases Nat.mod_two_eq_zero_or_one (signals first).length with hparity | hparity
    · have hnone : lastAsker? first = none := by
        simpa [hparity] using hodd
      rcases hkind with hrole | hrole <;> simp [hrole, hparity, hnone]
    · obtain ⟨asker, hasker⟩ := Option.isSome_iff_exists.mp (hodd.mpr hparity)
      rcases hkind with hrole | hrole <;> simp [hrole, hparity, hasker]

/-! ## Where a history leaves its run -/

@[simp] theorem told_nil : told [] = start := rfl

theorem told_concat :
    told (first ++ [event]) =
      match event.role with
      | .ends status => ⟨status, none⟩
      | .answers => ⟨event.verdict, none⟩
      | .asks => ⟨.paused, some event.toOpenRequest⟩
      | .passes => resting first := by
  cases hrole : event.role with
  | ends | answers => simp [told, hrole]
  | asks => simp [told, hrole, resting, lastAsker?_concat]
  | passes => simp [told, hrole, resting, lastAsker?_concat]

theorem resting_isOpen : (resting events).IsOpen := by
  unfold resting
  split <;> simp [IsOpen, start, RunStatus.isTerminal]

theorem resting_pending : (resting events).pending = (lastAsker? events).map Event.toOpenRequest := by
  unfold resting
  split <;> simp_all [start]

theorem resting_pass : (resting events).pass = resting events := by
  unfold resting
  split
  · exact pass_of_pending rfl
  · rfl

theorem told_pending (halive : (told events).status.isTerminal = false) :
    (told events).pending = (lastAsker? events).map Event.toOpenRequest := by
  rcases List.eq_nil_or_concat events with rfl | ⟨before, last, rfl⟩
  · rfl
  · rw [List.concat_eq_append] at halive ⊢
    rw [told_concat] at halive ⊢
    rw [lastAsker?_concat]
    cases hrole : last.role with
    | ends status =>
      rw [hrole] at halive
      simp [Event.isTerminal_of_ending? (Event.role_eq_ends_iff.mp hrole)] at halive
    | answers => rfl
    | asks => rfl
    | passes => exact resting_pending

/-- A neutral event finds the run where its signals have left it. -/
theorem told_pass (hopen : (told events).IsOpen) : (told events).pass = resting events := by
  rcases List.eq_nil_or_concat events with rfl | ⟨before, last, rfl⟩
  · rfl
  · rw [List.concat_eq_append] at hopen ⊢
    rw [told_concat] at hopen ⊢
    have hresting : resting (before ++ [last]) = match last.role with
        | .answers => start
        | .asks => ⟨.paused, some last.toOpenRequest⟩
        | _ => resting before := by
      rw [resting, lastAsker?_concat]
      cases last.role <;> rfl
    rw [hresting]
    cases hrole : last.role with
    | ends status =>
      rw [hrole] at hopen
      simp [IsOpen, Event.isTerminal_of_ending? (Event.role_eq_ends_iff.mp hrole)] at hopen
    | answers =>
      rw [hrole] at hopen
      have happroved : last.verdict = .approved := by
        have hnot := hopen.2
        unfold Event.verdict at hnot ⊢
        split <;> simp_all
      simp [happroved, pass, start]
    | asks => exact pass_of_pending rfl
    | passes => exact resting_pass

theorem exists_concat_eq_iff {holds : Event → Prop} :
    (∃ before last, first ++ [event] = before ++ [last] ∧ holds last) ↔ holds event := by
  constructor
  · rintro ⟨before, last, heq, hlast⟩
    obtain ⟨-, rfl⟩ := List.append_singleton_inj.mp heq
    exact hlast
  · exact fun hlast => ⟨first, event, rfl, hlast⟩

theorem told_isTerminal_iff :
    (told events).status.isTerminal = true ↔
      ∃ before last, events = before ++ [last] ∧ ∃ status, last.role = .ends status := by
  rcases List.eq_nil_or_concat events with rfl | ⟨before, last, rfl⟩
  · simp [start, RunStatus.isTerminal]
  · rw [List.concat_eq_append, told_concat, exists_concat_eq_iff]
    cases hrole : last.role with
    | ends status => simp [Event.isTerminal_of_ending? (Event.role_eq_ends_iff.mp hrole)]
    | answers => simp [Event.verdict_not_isTerminal]
    | asks => simp [RunStatus.isTerminal]
    | passes => simp [resting_isOpen.1]

theorem told_rejected_iff :
    (told events).status = .rejected ↔
      ∃ before last, events = before ++ [last] ∧ last.role = .answers ∧
        last.approval.status = .rejected := by
  rcases List.eq_nil_or_concat events with rfl | ⟨before, last, rfl⟩
  · simp [start]
  · rw [List.concat_eq_append, told_concat,
      exists_concat_eq_iff ]
    cases hrole : last.role with
    | ends status =>
      have hterminal := Event.isTerminal_of_ending? (Event.role_eq_ends_iff.mp hrole)
      have hnot : status ≠ .rejected := by
        rintro rfl
        cases hterminal
      simp [hnot]
    | answers => simp [Event.verdict_eq_rejected_iff]
    | asks => simp
    | passes => simp [resting_isOpen.2]

/-! ## One event more -/

theorem concat_eq_split_iff {before after : List Event} {last : Event} :
    first ++ [last] = before ++ event :: after ↔
      (first = before ∧ last = event ∧ after = []) ∨
        ∃ earlier, after = earlier ++ [last] ∧ first = before ++ event :: earlier := by
  rcases List.eq_nil_or_concat after with rfl | ⟨earlier, x, rfl⟩
  · simp [List.append_singleton_inj]
  · rw [List.concat_eq_append, ← List.cons_append, ← List.append_assoc,
      List.append_singleton_inj]
    constructor
    · rintro ⟨rfl, rfl⟩
      exact .inr ⟨earlier, rfl, rfl⟩
    · rintro (⟨-, -, hnil⟩ | ⟨_, heq, rfl⟩)
      · simp at hnil
      · obtain ⟨rfl, rfl⟩ := List.append_singleton_inj.mp heq
        exact ⟨rfl, rfl⟩

namespace FollowsDiagram

theorem nil : FollowsDiagram [] where
  ends := by simp
  answers := by simp
  turns := by simp [TakesTurns, signals]
  rejections := by simp

/-- A history that keeps to the diagram has done so all along. -/
theorem of_concat (h : FollowsDiagram (first ++ [event])) : FollowsDiagram first where
  ends before e after status hsplit hends := by
    have hnil := h.ends before e (after ++ [event]) status (by simp [hsplit]) hends
    simp at hnil
  answers e hmem := h.answers e (by simp [hmem])
  turns := (takesTurns_concat_iff.mp h.turns).1
  rejections before e after hsplit hanswers hrejected := by
    rcases h.rejections before e (after ++ [event]) (by simp [hsplit]) hanswers hrejected with
      hnil | ⟨next, rest, status, hnext, hends⟩
    · simp at hnil
    · cases after with
      | nil => exact .inl rfl
      | cons x xs =>
        obtain ⟨rfl, -⟩ := List.cons_eq_cons.mp hnext
        exact .inr ⟨x, xs, status, rfl, hends⟩

theorem of_append {later : List Event} (h : FollowsDiagram (first ++ later)) :
    FollowsDiagram first := by
  induction later using List.reverseRecOn with
  | nil => rwa [List.append_nil] at h
  | append_singleton later event ih =>
    rw [← List.append_assoc] at h
    exact ih h.of_concat

/-- What the next event has to be when a history is to keep to the diagram. -/
theorem concat_iff :
    FollowsDiagram (first ++ [event]) ↔
      FollowsDiagram first ∧ (told first).status.isTerminal = false ∧
        ((told first).status = .rejected → ∃ status, event.role = .ends status) ∧
        (event.role = .answers → event.IsComplete ∧ (lastAsker? first).isSome = true) ∧
        (event.role = .asks → lastAsker? first = none) := by
  constructor
  · intro h
    have hturns := (takesTurns_concat_iff.mp h.turns).2
    refine ⟨h.of_concat, ?_, ?_, fun hrole => ⟨h.answers event (by simp) hrole, hturns.1 hrole⟩,
      hturns.2⟩
    · refine Bool.eq_false_iff.mpr fun hended => ?_
      obtain ⟨before, last, hfirst, status, hends⟩ := told_isTerminal_iff.mp hended
      have hnil := h.ends before last [event] status (by simp [hfirst]) hends
      cases hnil
    · intro hrejected
      obtain ⟨before, last, hfirst, hanswers, hstatus⟩ := told_rejected_iff.mp hrejected
      rcases h.rejections before last [event] (by simp [hfirst]) hanswers hstatus with
        hnil | ⟨next, rest, status, hnext, hends⟩
      · cases hnil
      · cases hnext
        exact ⟨status, hends⟩
  · rintro ⟨h, halive, hrejected, hanswers, hasks⟩
    constructor
    · intro before e after status hsplit hends
      rcases concat_eq_split_iff.mp hsplit with ⟨-, -, hnil⟩ | ⟨earlier, -, hfirst⟩
      · exact hnil
      · obtain rfl := h.ends before e earlier status hfirst hends
        rw [told_isTerminal_iff.mpr ⟨before, e, hfirst, status, hends⟩] at halive
        cases halive
    · intro e hmem hrole
      rcases List.mem_append.mp hmem with hmem | hmem
      · exact h.answers e hmem hrole
      · obtain rfl := List.mem_singleton.mp hmem
        exact (hanswers hrole).1
    · exact takesTurns_concat_iff.mpr ⟨h.turns, fun hrole => (hanswers hrole).2, hasks⟩
    · intro before e after hsplit hrole hstatus
      rcases concat_eq_split_iff.mp hsplit with ⟨-, -, hnil⟩ | ⟨earlier, rfl, hfirst⟩
      · exact .inl hnil
      · rcases h.rejections before e earlier hfirst hrole hstatus with
          rfl | ⟨next, rest, status, rfl, hends⟩
        · obtain ⟨status, hends⟩ :=
            hrejected (told_rejected_iff.mpr ⟨before, e, hfirst, hrole, hstatus⟩)
          exact .inr ⟨event, [], status, rfl, hends⟩
        · exact .inr ⟨next, rest ++ [event], status, rfl, hends⟩

/-- From where a history has left its run, the next event leads on exactly if the longer history
keeps to the diagram, and then to where that one leaves it. -/
theorem moves_told_iff (h : FollowsDiagram first) :
    (told first).Moves event q ↔ FollowsDiagram (first ++ [event]) ∧ q = told (first ++ [event]) := by
  rw [concat_iff, told_concat]
  simp only [h, true_and]
  cases hrole : event.role with
  | ends status => simp [moves_iff_of_ends hrole]
  | answers =>
    simp only [moves_iff_of_answers hrole, IsOpen, reduceCtorEq, exists_false, imp_false,
      false_imp_iff, true_imp_iff, and_true]
    constructor
    · rintro ⟨⟨halive, hunrejected⟩, hwaits, hcomplete, hq⟩
      rw [told_pending halive, Option.isSome_map] at hwaits
      exact ⟨⟨halive, hunrejected, hcomplete, hwaits⟩, hq⟩
    · rintro ⟨⟨halive, hunrejected, hcomplete, hwaits⟩, hq⟩
      rw [told_pending halive, Option.isSome_map]
      exact ⟨⟨halive, hunrejected⟩, hwaits, hcomplete, hq⟩
  | asks =>
    simp only [moves_iff_of_asks hrole, IsOpen, reduceCtorEq, exists_false, imp_false,
      false_imp_iff, true_imp_iff, true_and]
    constructor
    · rintro ⟨⟨halive, hunrejected⟩, hfree, hq⟩
      rw [told_pending halive, Option.map_eq_none_iff] at hfree
      exact ⟨⟨halive, hunrejected, hfree⟩, hq⟩
    · rintro ⟨⟨halive, hunrejected, hfree⟩, hq⟩
      rw [told_pending halive, Option.map_eq_none_iff]
      exact ⟨⟨halive, hunrejected⟩, hfree, hq⟩
  | passes =>
    simp only [moves_iff_of_passes hrole, IsOpen, reduceCtorEq, exists_false, imp_false,
      false_imp_iff, and_true]
    constructor
    · rintro ⟨hopen, rfl⟩
      exact ⟨hopen, told_pass hopen⟩
    · rintro ⟨hopen, rfl⟩
      exact ⟨hopen, (told_pass hopen).symm⟩

end FollowsDiagram

/-! ## The two descriptions agree -/

theorem ofEvents_eq_ok_iff :
    ofEvents events = .ok q ↔ FollowsDiagram events ∧ q = told events := by
  induction events using List.reverseRecOn generalizing q with
  | nil =>
    simp only [ofEvents, steps_nil, Except.ok.injEq, told_nil, FollowsDiagram.nil, true_and]
    exact eq_comm
  | append_singleton first event ih =>
    rw [ofEvents, steps_concat_eq_ok_iff]
    constructor
    · rintro ⟨m, hfirst, hmoves⟩
      obtain ⟨hfollows, rfl⟩ := ih.mp hfirst
      exact hfollows.moves_told_iff.mp hmoves
    · rintro ⟨hfollows, hq⟩
      exact ⟨told first, ih.mpr ⟨hfollows.of_concat, rfl⟩,
        hfollows.of_concat.moves_told_iff.mpr ⟨hfollows, hq⟩⟩

/-- A conflict names the event that does not fit. -/
theorem eventId_of_step {conflict : RunConflict} (h : p.step event = .error conflict) :
    conflict.eventId = event.id := by
  have hresolve : p.resolve event = .error conflict → conflict.eventId = event.id := by
    intro h
    unfold resolve at h
    grind [Event.conflict]
  have hrequest : p.request event = .error conflict → conflict.eventId = event.id := by
    intro h
    unfold request at h
    grind [Event.conflict]
  unfold step at h
  grind [Event.conflict]

/-- A walk that breaks off does so at one of the events. -/
theorem steps_eq_error {conflict : RunConflict} (h : p.steps events = .error conflict) :
    ∃ before event after m, events = before ++ event :: after ∧ p.steps before = .ok m ∧
      m.step event = .error conflict := by
  induction events generalizing p with
  | nil => cases h
  | cons event rest ih =>
    rw [steps] at h
    cases hstep : p.step event with
    | error found =>
      rw [hstep] at h
      cases h
      exact ⟨[], event, rest, p, rfl, rfl, hstep⟩
    | ok q =>
      rw [hstep] at h
      obtain ⟨before, last, after, m, rfl, hbefore, hlast⟩ := ih h
      exact ⟨event :: before, last, after, m, rfl,
        steps_cons_eq_ok_iff.mpr ⟨q, step_eq_ok_iff.mp hstep, hbefore⟩, hlast⟩

/-- The walk along the diagram gets to the end of a history exactly if the history keeps to the
rules, and then to where its last event and the last of its signals say: the run waits for an
answer to that signal, or for none.  Otherwise the walk breaks off at the first event that breaks
a rule, and the conflict names that event. -/
theorem ofEvents_follows_diagram (events : List Event) :
    ((∃ state, ofEvents events = .ok state) ↔ FollowsDiagram events) ∧
      match ofEvents events with
      | .ok state =>
        state = told events ∧
          ∀ request, state.pending = some request ↔
            state.status = .paused ∧ (lastAsker? events).map Event.toOpenRequest = some request
      | .error conflict =>
        ∃ i event, events[i]? = some event ∧ conflict.eventId = event.id ∧
          ∀ n, FollowsDiagram (events.take n) ↔ n ≤ i := by
  constructor
  · constructor
    · exact fun ⟨state, hok⟩ => (ofEvents_eq_ok_iff.mp hok).1
    · exact fun hfollows => ⟨told events, ofEvents_eq_ok_iff.mpr ⟨hfollows, rfl⟩⟩
  · cases hwalk : ofEvents events with
    | ok state =>
      have hcoherent := coherent_of_steps coherent_start hwalk
      obtain ⟨-, rfl⟩ := ofEvents_eq_ok_iff.mp hwalk
      refine ⟨rfl, fun request => ?_⟩
      constructor
      · intro hpending
        have hpaused : (told events).status = .paused := hcoherent.mpr (by simp [hpending])
        rw [← told_pending (by rw [hpaused]; rfl), hpending]
        exact ⟨hpaused, rfl⟩
      · rintro ⟨hpaused, hasker⟩
        rwa [told_pending (by rw [hpaused]; rfl)]
    | error conflict =>
      obtain ⟨before, event, after, m, rfl, hbefore, hstep⟩ := steps_eq_error hwalk
      obtain ⟨hfollows, rfl⟩ := ofEvents_eq_ok_iff.mp hbefore
      refine ⟨before.length, event, by simp, eventId_of_step hstep, fun n => ?_⟩
      constructor
      · intro htaken
        refine Nat.not_lt.mp fun hlonger => ?_
        obtain ⟨k, rfl⟩ := Nat.exists_eq_add_of_lt hlonger
        rw [List.take_append, List.take_of_length_le (by omega),
          show before.length + k + 1 - before.length = k + 1 by omega, List.take_succ_cons,
          List.append_cons] at htaken
        have hmoves := hfollows.moves_told_iff.mpr ⟨htaken.of_append, rfl⟩
        rw [step_eq_ok_iff.mpr hmoves] at hstep
        cases hstep
      · intro hshorter
        rw [List.take_append_of_le_length hshorter]
        exact FollowsDiagram.of_append (by rwa [List.take_append_drop])

end RunState

end RunLedger
