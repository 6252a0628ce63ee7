/-
  Proofs/Approval/AnsweredOnce.lean --- a request is answered at most once.

  WHAT THIS FILE IS FOR.  A recorded answer names the request that it is for, and
  what is on record stays there.  So a request that has been answered is known as
  answered from then on, however it is looked up and whatever else is recorded,
  and who answers it again is told so.  There is one way for that to change: an
  event with the same identifier in another run makes the identifier ambiguous.
-/
import RunLedger.Proofs.Approval.Outcome
import RunLedger.Proofs.Ledger.Acceptance

set_option autoImplicit false

namespace RunLedger

/-! ## Answers that name their request -/

/-- How the identifier of a recorded answer to the request `eventId` begins. -/
def answerPrefix (eventId : String) : List Char := ("apr_" ++ eventId ++ "_").toList

theorem isAnsweredFrom_of_mem {eventId : String} {records : List Record} {r : Record}
    (hr : r ∈ records) (hanswer : r.event.isAnswer = true)
    (hnamed : answerPrefix eventId <+: r.eventId.toList) (unanswered : Option String) :
    isAnsweredFrom eventId unanswered records = true := by
  induction records generalizing unanswered with
  | nil => cases hr
  | cons x rest ih =>
    unfold isAnsweredFrom
    rcases List.mem_cons.mp hr with rfl | hrest
    · have hprefixed : (answerPrefix eventId).isPrefixOf r.eventId.toList = true :=
        List.isPrefixOf_iff_prefix.mpr hnamed
      rw [if_pos hanswer, ← answerPrefix, hprefixed, Bool.true_or, Bool.true_or]
    · split
      · rw [ih hrest none, Bool.or_true]
      · split
        · exact ih hrest _
        · exact ih hrest _

/-- A recorded answer keeps the name of its request, and says what the answer is, through
normalization. -/
theorem isPrefix_id_toEvent (resolution : Resolution) (target : Record) (at_ : Time.Instant)
    (token : String) :
    answerPrefix target.eventId ++ (resolution.answer.name.toList ++ ['_']) <+:
      (resolution.toEvent target at_ token).normalized.id.toList := by
  have hprefix : answerPrefix target.eventId ++ (resolution.answer.name.toList ++ ['_']) =
      'a' :: (['p', 'r', '_'] ++ target.eventId.toList ++ ['_'] ++
        resolution.answer.name.toList) ++ ['_'] := by
    simp [answerPrefix]
  have hid : (resolution.toEvent target at_ token).normalized.id.toList =
      Text.trimChars (answerPrefix target.eventId ++ (resolution.answer.name.toList ++ ['_']) ++
        (at_.unpunctuated ++ "_" ++ token).toList) := by
    simp [Event.normalized, Text.trim, Resolution.toEvent, Event.plain, answerPrefix]
  rw [hid, hprefix]
  exact Text.isPrefix_trimChars (by decide) (by decide)

theorem answerPrefix_toEvent (resolution : Resolution) (target : Record) (at_ : Time.Instant)
    (token : String) :
    answerPrefix target.eventId <+: (resolution.toEvent target at_ token).normalized.id.toList :=
  (List.prefix_append _ _).trans (isPrefix_id_toEvent resolution target at_ token)

theorem runId_toEvent (resolution : Resolution) (target : Record) (at_ : Time.Instant)
    (token : String) : (resolution.toEvent target at_ token).runId = target.runId := rfl

theorem isAnswer_toEvent (resolution : Resolution) (target : Record) (at_ : Time.Instant)
    (token : String) : (resolution.toEvent target at_ token).normalized.isAnswer = true := by
  have hkind : (resolution.toEvent target at_ token).normalized.kind = .approvalResolved := rfl
  rw [Event.isAnswer, hkind]
  rfl

namespace MemoryStore

/-- The run has the request `eventId` and an answer that names it. -/
def Answered (store : MemoryStore) (runId eventId : String) : Prop :=
  (∃ request ∈ store.readOrder runId, request.eventId = eventId ∧
    request.event.isRequest = true) ∧
  ∃ answer ∈ store.readOrder runId, answer.event.isAnswer = true ∧
    answerPrefix eventId <+: answer.eventId.toList

/-- An event with the identifier is on record in another run. -/
def UsedElsewhere (store : MemoryStore) (runId eventId : String) : Prop :=
  ∃ other, other ≠ runId ∧ ∃ r ∈ store.readOrder other, r.eventId = eventId

theorem Accepts.mem_readOrder {s t : MemoryStore} {r x : Record} (h : s.Accepts r t)
    (hs : s.Sound) {runId : String} :
    x ∈ t.readOrder runId ↔ x ∈ s.readOrder runId ∨ (x = r ∧ runId = r.runId) := by
  obtain ⟨⟨log, hlog⟩, -⟩ := hs
  rw [(hlog.append h.appended).mem_readOrder, hlog.mem_readOrder, List.mem_append,
    List.mem_singleton]
  constructor
  · rintro ⟨hx | rfl, hrun⟩
    · exact .inl ⟨hx, hrun⟩
    · exact .inr ⟨rfl, hrun.symm⟩
  · rintro (⟨hx, hrun⟩ | ⟨rfl, hrun⟩)
    · exact ⟨.inl hx, hrun⟩
    · exact ⟨.inr rfl, hrun.symm⟩

/-- What is on record stays on record. -/
theorem mem_readOrder_of_chain {s t : MemoryStore} {r : Record} {runId : String} (hs : s.Sound)
    (hchain : Relation.ReflTransGen (fun s t => ∃ r, s.Accepts r t) s t)
    (hr : r ∈ s.readOrder runId) : r ∈ t.readOrder runId := by
  induction hchain with
  | refl => exact hr
  | tail hfirst haccepts ih =>
    obtain ⟨x, haccepts⟩ := haccepts
    exact (haccepts.mem_readOrder (hs.of_chain hfirst)).mpr (.inl ih)

/-- What is answered stays answered. -/
theorem Answered.of_chain {s t : MemoryStore} {runId eventId : String}
    (h : s.Answered runId eventId) (hs : s.Sound)
    (hchain : Relation.ReflTransGen (fun s t => ∃ r, s.Accepts r t) s t) :
    t.Answered runId eventId := by
  obtain ⟨⟨request, hrequest, hasks⟩, answer, hanswer, hnames⟩ := h
  exact ⟨⟨request, mem_readOrder_of_chain hs hchain hrequest, hasks⟩,
    answer, mem_readOrder_of_chain hs hchain hanswer, hnames⟩

/-- The records of all runs that have an identifier, in read order. -/
def withId (store : MemoryStore) (eventId : String) : List Record :=
  (Record.sortForReading store.records).filter fun r => r.eventId == eventId

theorem Holds.mem_withId {store : MemoryStore} {log : List Record} (h : store.Holds log)
    {eventId : String} {r : Record} : r ∈ store.withId eventId ↔ r ∈ log ∧ r.eventId = eventId := by
  rw [withId, List.mem_filter, Record.mem_sortForReading, h.mem_records, beq_iff_eq]

theorem Holds.nodup_withId {store : MemoryStore} {log : List Record} (h : store.Holds log)
    (eventId : String) : (store.withId eventId).Nodup := by
  refine List.Nodup.filter _ ?_
  rw [((Record.sortForReading_perm _).trans h.all).nodup_iff]
  exact h.places_nodup.of_map _

theorem Holds.usedElsewhere_iff {store : MemoryStore} {log : List Record} (h : store.Holds log)
    {runId eventId : String} :
    store.UsedElsewhere runId eventId ↔ ∃ r ∈ store.withId eventId, r.runId ≠ runId := by
  constructor
  · rintro ⟨other, hother, r, hr, hid⟩
    obtain ⟨hlog, hrun⟩ := h.mem_readOrder.mp hr
    exact ⟨r, h.mem_withId.mpr ⟨hlog, hid⟩, hrun ▸ hother⟩
  · rintro ⟨r, hr, hrun⟩
    obtain ⟨hlog, hid⟩ := h.mem_withId.mp hr
    exact ⟨r.runId, hrun, r, h.mem_readOrder.mpr ⟨hlog, rfl⟩, hid⟩

/-- A record is the only one with its identifier, or there are several and not all of them are
in its run. -/
theorem Holds.withId_cases {store : MemoryStore} {log : List Record} (h : store.Holds log)
    {runId : String} {r : Record} (hr : r ∈ store.readOrder runId) :
    (store.withId r.eventId = [r] ∧ ¬ store.UsedElsewhere runId r.eventId) ∨
      ∃ x y rest, store.withId r.eventId = x :: y :: rest ∧
        store.UsedElsewhere runId r.eventId := by
  obtain ⟨hlog, hrun⟩ := h.mem_readOrder.mp hr
  have hfound : r ∈ store.withId r.eventId := h.mem_withId.mpr ⟨hlog, rfl⟩
  have hnodup := h.nodup_withId r.eventId
  have hmem {x : Record} (hx : x ∈ store.withId r.eventId) := h.mem_withId.mp hx
  rw [h.usedElsewhere_iff]
  generalize store.withId r.eventId = found at *
  match found with
  | [] => cases hfound
  | [x] =>
    obtain rfl := List.mem_singleton.mp hfound
    exact .inl ⟨rfl, by simp [hrun]⟩
  | x :: y :: rest =>
    -- Two records with one identifier cannot both be in the run.
    obtain ⟨hx, hxid⟩ := hmem (x := x) (by simp)
    obtain ⟨hy, hyid⟩ := hmem (x := y) (by simp)
    have hdiffer : x ≠ y := fun heq => (List.nodup_cons.mp hnodup).1 (heq ▸ List.mem_cons_self)
    refine .inr ⟨x, y, rest, rfl, ?_⟩
    by_cases hxrun : x.runId = runId
    · refine ⟨y, by simp, fun hyrun => hdiffer ?_⟩
      exact h.eq_of_eventId hx hy (hxrun.trans hyrun.symm) (hxid.trans hyid.symm)
    · exact ⟨x, by simp, hxrun⟩

end MemoryStore

namespace Ledger

variable {ledger : Ledger MemoryStore} {runId eventId : String}

/-! ## Looking an answered request up -/

theorem recordOfEvent_apply (eventId : String) (ledger : Ledger MemoryStore) :
    recordOfEvent eventId ledger =
      match ledger.store.withId eventId with
      | [] => (.error (.approvalNotFound eventId .eventId), ledger)
      | [r] => (.ok r, ledger)
      | _ => (.error (.ambiguousEvent eventId), ledger) := by
  have hall : call (EventStore.readAll : StoreM MemoryStore _) ledger =
      (.ok (Record.sortForReading ledger.store.records), ledger) := rfl
  rw [recordOfEvent, bind_apply, hall]
  dsimp only
  rw [← MemoryStore.withId]
  rcases ledger.store.withId eventId with _ | ⟨x, _ | ⟨y, rest⟩⟩ <;> rfl

/-- Why a request that is answered already is not answered again. -/
theorem openRequest_of_answered (hs : ledger.store.Sound)
    (h : ledger.store.Answered runId eventId) :
    (¬ ledger.store.UsedElsewhere runId eventId →
      openRequest eventId ledger = (.error (.duplicateApproval eventId .resolved), ledger)) ∧
    (ledger.store.UsedElsewhere runId eventId →
      openRequest eventId ledger = (.error (.ambiguousEvent eventId), ledger)) := by
  obtain ⟨⟨request, hrequest, rfl, hasks⟩, answer, hanswer, hanswers, hnames⟩ := h
  obtain ⟨⟨log, hlog⟩, -⟩ := hs
  rcases hlog.withId_cases hrequest with ⟨hfound, hunique⟩ | ⟨x, y, rest, hfound, hused⟩
  · refine ⟨fun _ => ?_, fun hused => absurd hused hunique⟩
    have hrun : request.runId = runId := (hlog.mem_readOrder.mp hrequest).2
    have hanswered : isAnswered request.eventId (ledger.store.readOrder runId) = true :=
      isAnsweredFrom_of_mem hanswer hanswers hnames none
    have hrefused : requireOpen request (ledger.store.readOrder runId) ledger =
        (.error (.duplicateApproval request.eventId .resolved), ledger) := by
      unfold requireOpen
      rw [hanswered]
      rfl
    rw [openRequest, bind_apply, recordOfEvent_apply, hfound]
    dsimp only
    rw [hasks, if_neg (by decide), bind_apply, readRun_apply, hrun]
    dsimp only
    rw [bind_apply, hrefused]
  · refine ⟨fun hunique => absurd hused hunique, fun _ => ?_⟩
    rw [openRequest, bind_apply, recordOfEvent_apply, hfound]

/-- What is opened is the one record with its identifier, asks for an approval, and is open in the
history of its run.  Opening it changes nothing. -/
theorem openRequest_eq_ok {request : Record} {history : List Record} {before : RunStatus}
    {next : Ledger MemoryStore}
    (h : openRequest eventId ledger = (.ok (request, history, before), next)) :
    ledger.store.withId eventId = [request] ∧ request.event.isRequest = true ∧
      history = ledger.store.readOrder request.runId ∧
      requireOpen request history ledger = (.ok before, next) := by
  obtain ⟨found, middle, hrecord, hrest⟩ := bind_eq_ok_iff.mp h
  obtain ⟨hfound, rfl⟩ : ledger.store.withId eventId = [found] ∧ middle = ledger := by
    rw [recordOfEvent_apply] at hrecord
    split at hrecord
    · cases (Prod.mk.inj hrecord).1
    · rename_i r hr
      cases hrecord
      exact ⟨hr, rfl⟩
    · cases (Prod.mk.inj hrecord).1
  cases hasks : found.event.isRequest with
  | false =>
    rw [hasks] at hrest
    cases (Prod.mk.inj hrest).1
  | true =>
    rw [hasks, if_neg (by decide)] at hrest
    obtain ⟨records, _, hread, hrest⟩ := bind_eq_ok_iff.mp hrest
    rw [readRun_apply] at hread
    cases hread
    obtain ⟨status, _, hopen, hreturn⟩ := bind_eq_ok_iff.mp hrest
    cases hreturn
    exact ⟨hfound, hasks, rfl, hopen⟩

/-- The request that an answer is recorded for is on record and asks for an approval; the recorded
answer names it and belongs to its run. -/
theorem answered_of_recordAnswer {around : Surroundings} {resolution : Resolution}
    {submitted : Ledger MemoryStore} {request recorded : Record} {before : RunStatus}
    (hs : ledger.store.Sound)
    (h : recordAnswer around eventId resolution ledger =
      (.ok (request, recorded, before), submitted)) :
    submitted.store.Answered recorded.runId eventId := by
  obtain ⟨history, opened, hopen, hsubmit⟩ := exists_of_recordAnswer h
  obtain ⟨hfound, hasks, -, -⟩ := openRequest_eq_ok hopen
  obtain ⟨hevent, haccepts, -⟩ := submit_eq_ok_iff.mp hsubmit
  -- The stores on the way: opening the request reads only, and recording adds the answer.
  have hopened := (stepsOf_accepts.openRequest eventId).changes.of_run hopen
  have hsopened := hs.of_chain hopened
  obtain ⟨log, hlog⟩ := hs.1
  obtain ⟨hrequest, hid⟩ := hlog.mem_withId.mp (hfound ▸ List.mem_singleton_self request)
  have hnormal : Text.trim request.runId = request.runId :=
    congrArg Event.runId (hlog.normal request hrequest)
  have hrun : recorded.runId = request.runId := by
    rw [Record.runId, hevent, Event.normalized_runId, runId_toEvent, hnormal]
  have hkept : request ∈ opened.store.readOrder recorded.runId :=
    MemoryStore.mem_readOrder_of_chain hs hopened (hlog.mem_readOrder.mpr ⟨hrequest, hrun.symm⟩)
  refine ⟨⟨request, (haccepts.mem_readOrder hsopened).mpr (.inl hkept), hid, hasks⟩,
    recorded, (haccepts.mem_readOrder hsopened).mpr (.inr ⟨rfl, rfl⟩), ?_, ?_⟩
  · rw [hevent]
    exact isAnswer_toEvent _ _ _ _
  · rw [Record.eventId, hevent, ← hid]
    exact answerPrefix_toEvent _ _ _ _

end Ledger

/-! ## Requests and answers in any order -/

namespace Call

variable {call : Call MemoryStore} {runId eventId : String}

/-- The call answers the request `eventId`, by whichever way it finds it, and comes back with the
outcome, or with the outcome and a failure of what should follow: the answer is recorded in the
run `runId`. -/
def Resolves (call : Call MemoryStore) (runId eventId : String) : Prop :=
  match call.operation with
  | .resolve strategies _ around target resolution =>
    (Ledger.targetEvent target call.ledger).1 = .ok eventId ∧
      ∃ outcome, Outcome.ofAnswer?
          (Ledger.resolve strategies around target resolution call.ledger).1 = some outcome ∧
        outcome.runId = runId
  | _ => False

theorem chain (call : Call MemoryStore) :
    Relation.ReflTransGen (fun s t => ∃ r, s.Accepts r t) call.ledger.store call.next.store :=
  call.operation.changesBy Ledger.stepsOf_accepts call.ledger

/-- What a call needs to answer a request: it finds the request, and records the answer. -/
theorem Resolves.exists_recorded (h : call.Resolves runId eventId) :
    ∃ strategies describe around target resolution found request recorded before submitted,
      call.operation = .resolve strategies describe around target resolution ∧
      Ledger.targetEvent target call.ledger = (.ok eventId, found) ∧
      Ledger.recordAnswer around eventId resolution found =
        (.ok (request, recorded, before), submitted) ∧
      recorded.runId = runId := by
  unfold Resolves at h
  split at h
  · rename_i strategies describe around target resolution hoperation
    obtain ⟨htarget, outcome, houtcome, rfl⟩ := h
    obtain ⟨eventId', found, request, recorded, before, submitted, hfound, hrecorded, hnames⟩ :=
      Ledger.exists_recorded_of_outcome houtcome
    rw [hfound] at htarget
    obtain rfl := Except.ok.inj htarget
    exact ⟨strategies, describe, around, target, resolution, found, request, recorded, before,
      submitted, hoperation, hfound, hrecorded, hnames.run.symm⟩
  · exact h.elim

/-- A call that finds a request and records the answer to it answers it. -/
theorem resolves_of_recorded {strategies : Strategies MemoryStore}
    (describe : strategies.OnlyDescribe) {around : Surroundings} {target : ApprovalTarget}
    {resolution : Resolution} {ledger found submitted : Ledger MemoryStore}
    {request recorded : Record} {before : RunStatus}
    (hfound : Ledger.targetEvent target ledger = (.ok eventId, found))
    (hrecorded : Ledger.recordAnswer around eventId resolution found =
      (.ok (request, recorded, before), submitted)) :
    (Call.mk ledger (.resolve strategies describe around target resolution)).Resolves
      recorded.runId eventId := by
  obtain ⟨outcome, houtcome, hnames⟩ := Ledger.exists_outcome_of_recorded hfound hrecorded
  exact ⟨congrArg Prod.fst hfound, outcome, houtcome, hnames.run⟩

/-- A request is answered once it has been answered. -/
theorem Resolves.answered_next (h : call.Resolves runId eventId) (hs : call.ledger.store.Sound) :
    call.next.store.Answered runId eventId := by
  obtain ⟨strategies, describe, around, target, resolution, found, request, recorded, before,
    submitted, hoperation, hfound, hrecorded, rfl⟩ := h.exists_recorded
  obtain ⟨ledger, operation⟩ := call
  obtain rfl : operation = _ := hoperation
  rw [next_resolve, Ledger.resolve_of_recorded hfound hrecorded]
  have hsfound : found.store.Sound :=
    hs.of_chain ((Ledger.stepsOf_accepts.targetEvent target).changes.of_run hfound)
  have hssubmitted : submitted.store.Sound := hsfound.of_chain
    ((Ledger.stepsOf_accepts.recordAnswer around eventId resolution).changes.of_run hrecorded)
  refine (Ledger.answered_of_recordAnswer hsfound hrecorded).of_chain hssubmitted ?_
  exact (Ledger.stepsOf_accepts.conclude (describe.changeBy _) around request recorded before
    resolution.answer).changes submitted

/-- A request that is answered is not answered again. -/
theorem not_resolves_of_answered (hs : call.ledger.store.Sound)
    (h : call.ledger.store.Answered runId eventId) (runId' : String) :
    ¬ call.Resolves runId' eventId := by
  intro hresolves
  obtain ⟨strategies, describe, around, target, resolution, found, request, recorded, before,
    submitted, -, hfound, hrecorded, -⟩ := hresolves.exists_recorded
  have hchain := (Ledger.stepsOf_accepts.targetEvent target).changes.of_run hfound
  obtain ⟨hunique, hused⟩ := Ledger.openRequest_of_answered (hs.of_chain hchain)
    (h.of_chain hs hchain)
  obtain ⟨history, opened, hopen, -⟩ := Ledger.exists_of_recordAnswer hrecorded
  by_cases helsewhere : found.store.UsedElsewhere runId eventId
  · rw [hused helsewhere] at hopen
    cases (Prod.mk.inj hopen).1
  · rw [hunique helsewhere] at hopen
    cases (Prod.mk.inj hopen).1

end Call

namespace Ledger

variable {ledger : Ledger MemoryStore} {runId eventId : String}

theorem not_resolves_calls (hs : ledger.store.Sound)
    (h : ledger.store.Answered runId eventId) (operations : List (Operation MemoryStore)) :
    ∀ call ∈ ledger.calls operations, ∀ runId', ¬ call.Resolves runId' eventId := by
  induction operations generalizing ledger with
  | nil => simp [calls]
  | cons operation rest ih =>
    intro call hcall
    rcases List.mem_cons.mp hcall with rfl | hcall
    · exact Call.not_resolves_of_answered hs h
    · have hchain := (Call.mk ledger operation).chain
      exact ih (hs.of_chain hchain) (h.of_chain hs hchain) call hcall

theorem pairwise_calls (hs : ledger.store.Sound) (operations : List (Operation MemoryStore)) :
    (ledger.calls operations).Pairwise fun a b => ∀ runId runId' eventId,
      a.Resolves runId eventId → ¬ b.Resolves runId' eventId := by
  induction operations generalizing ledger with
  | nil => exact List.Pairwise.nil
  | cons operation rest ih =>
    have hnext := hs.of_chain (Call.mk ledger operation).chain
    refine List.Pairwise.cons ?_ (ih hnext)
    intro later hlater runId runId' eventId hresolves
    exact not_resolves_calls hnext (hresolves.answered_next hs) rest later hlater runId'

theorem answered_after {call : Call MemoryStore} (hs : ledger.store.Sound)
    (operations : List (Operation MemoryStore)) (hcall : call ∈ ledger.calls operations)
    (h : call.Resolves runId eventId) :
    (ledger.after operations).store.Answered runId eventId := by
  induction operations generalizing ledger with
  | nil => cases hcall
  | cons operation rest ih =>
    have hnext := hs.of_chain (Call.mk ledger operation).chain
    rcases List.mem_cons.mp hcall with rfl | hcall
    · exact (h.answered_next hs).of_chain hnext (reflTransGen_after stepsOf_accepts _ rest)
    · exact ih hnext hcall

/-- Whatever is asked of a fresh ledger, in whatever order: no two calls answer one request.  Who
later answers the request by its identifier is told that it has been answered, or that the
identifier is in use in another run as well, and changes nothing. -/
theorem request_answered_at_most_once (operations : List (Operation MemoryStore)) :
    ((inMemory.calls operations).Pairwise fun a b => ∀ runId runId' eventId,
      a.Resolves runId eventId → ¬ b.Resolves runId' eventId) ∧
    ∀ call ∈ inMemory.calls operations, ∀ runId eventId, call.Resolves runId eventId →
      ∀ strategies around id resolution, Text.trim id = eventId →
        (¬ (inMemory.after operations).store.UsedElsewhere runId eventId →
          resolve strategies around (.event id) resolution (inMemory.after operations) =
            (.error (.duplicateApproval eventId .resolved), inMemory.after operations)) ∧
        ((inMemory.after operations).store.UsedElsewhere runId eventId →
          resolve strategies around (.event id) resolution (inMemory.after operations) =
            (.error (.ambiguousEvent eventId), inMemory.after operations)) := by
  refine ⟨pairwise_calls MemoryStore.sound_empty operations, ?_⟩
  rintro call hcall runId _ hresolves strategies around id resolution rfl
  have hanswered := answered_after MemoryStore.sound_empty operations hcall hresolves
  obtain ⟨hunique, hused⟩ := openRequest_of_answered (sound_after operations) hanswered
  exact ⟨fun h => resolve_of_refused rfl (hunique h), fun h => resolve_of_refused rfl (hused h)⟩

/-- A clock that stands still, and one token. -/
def stillSurroundings : Surroundings := ⟨fun _ => .epoch, fun _ => "t"⟩

/-- A request for an approval of a policy decision. -/
def letterAsked : Operation MemoryStore :=
  .register stillSurroundings
    ⟨"letter", "run", "agent", "Send the letter?", "The letter is ready.", .low, none⟩

/-- The answer to what was asked about the policy decision. -/
def letterApproved : Operation MemoryStore :=
  .resolve .none (fun _ _ h => by cases h) stillSurroundings (.decision "letter")
    ⟨.approved, "alice", none⟩

/-- The answer to the letter is recorded, and answering it again by its identifier is refused. -/
theorem letter_is_answered_once :
    (∃ call ∈ inMemory.calls [letterAsked, letterApproved],
      call.Resolves "run" "evt_letter_pending_19700101T000000000000Z_t") ∧
    ∃ error, resolve .none stillSurroundings
        (.event " evt_letter_pending_19700101T000000000000Z_t ") ⟨.rejected, "bob", none⟩
        (inMemory.after [letterAsked, letterApproved]) =
      (.error error, inMemory.after [letterAsked, letterApproved]) := by
  have hanswered : (Call.mk (Call.mk inMemory letterAsked).next letterApproved).Resolves "run"
      "evt_letter_pending_19700101T000000000000Z_t" := by
    have hfound : targetEvent (.decision "letter") (Call.mk inMemory letterAsked).next =
        (.ok "evt_letter_pending_19700101T000000000000Z_t",
          (targetEvent (.decision "letter") (Call.mk inMemory letterAsked).next).2) :=
      Prod.ext (by decide +kernel) rfl
    obtain ⟨⟨request, recorded, before⟩, submitted, hrecorded, hreturn⟩ := bind_eq_ok_iff.mp
      (Prod.ext (by decide +kernel) rfl :
        (recordAnswer stillSurroundings "evt_letter_pending_19700101T000000000000Z_t"
            ⟨.approved, "alice", none⟩ >>= fun answered => pure answered.2.1.runId)
          (targetEvent (.decision "letter") (Call.mk inMemory letterAsked).next).2 =
        (.ok "run", _))
    have hrun : recorded.runId = "run" := Except.ok.inj (Prod.mk.inj hreturn).1
    rw [← hrun]
    exact Call.resolves_of_recorded _ hfound hrecorded
  have hmem : Call.mk (Call.mk inMemory letterAsked).next letterApproved ∈
      inMemory.calls [letterAsked, letterApproved] := List.mem_cons_of_mem _ List.mem_cons_self
  obtain ⟨hunique, hused⟩ := (request_answered_at_most_once [letterAsked, letterApproved]).2 _ hmem
    "run" _ hanswered .none stillSurroundings " evt_letter_pending_19700101T000000000000Z_t "
    ⟨.rejected, "bob", none⟩ (by decide +kernel)
  refine ⟨⟨_, hmem, hanswered⟩, ?_⟩
  by_cases helsewhere : (inMemory.after [letterAsked, letterApproved]).store.UsedElsewhere "run"
      "evt_letter_pending_19700101T000000000000Z_t"
  · exact ⟨_, hused helsewhere⟩
  · exact ⟨_, hunique helsewhere⟩

end Ledger

end RunLedger
