/-
  Proofs/Approval/Lifecycle.lean --- the life of a policy decision.

  WHAT THIS FILE IS FOR.  A ledger that is only used to ask for approvals and to
  answer requests tells of every policy decision what the calls have made of it:
  nobody has asked, or somebody has asked and waits for the answer, or the answer is
  given.  The two ways to look a decision up, by itself and in the list of what
  waits, make their answers anew from different listings, and still agree with each
  other and with what the calls came back with.
-/
import RunLedger.Proofs.Approval.DecisionStage

set_option autoImplicit false

namespace RunLedger

open RunLedger.Text (trim)

variable {decisionId : String} {asked recorded r : Record} {answer : Answer}

/-! ## What calls make of a policy decision -/

/-- A call registers the policy decision, and comes back with the registration. -/
def Registered (calls : List (Call MemoryStore)) (decisionId : String)
    (registration : Registration) : Prop :=
  ∃ call ∈ calls, call.Registers decisionId registration

/-- No call answers the request that has been registered. -/
def Unanswered (calls : List (Call MemoryStore)) (registration : Registration) : Prop :=
  ∀ call ∈ calls, ∀ outcome, ¬ call.Answers registration outcome

/-- One call gives an answer to the request that has been registered, and no other call does. -/
def AnsweredBy (calls : List (Call MemoryStore)) (registration : Registration)
    (answer : Answer) : Prop :=
  ∃ before call after, calls = before ++ call :: after ∧
    (∃ outcome, call.Answers registration outcome) ∧ call.Gives answer ∧
    Unanswered (before ++ after) registration

/-- Every request that one of the calls has answered is on record. -/
def AnsweredOnRecord (calls : List (Call MemoryStore)) (store : MemoryStore) : Prop :=
  ∀ call ∈ calls, ∀ outcome, call.answer = .ok (.resolved outcome) →
    ∃ asked ∈ store.readOrder outcome.runId, asked.eventId = outcome.targetEventId

/-- One call has registered the policy decision, and `asked` is the request that it has put on
record. -/
structure RegisteredAs (calls : List (Call MemoryStore)) (decisionId : String)
    (registration : Registration) (asked : Record) : Prop where
  registered : Registered calls decisionId registration
  once : ∀ other, Registered calls decisionId other → other = registration
  named : registration.eventId = asked.eventId
  run : registration.runId = asked.runId

/-- What some calls have made of a policy decision. -/
inductive Stage (decisionId : String) (calls : List (Call MemoryStore)) (store : MemoryStore) : Prop
  /-- no call has registered it -/
  | unasked (never : ∀ registration, ¬ Registered calls decisionId registration)
      (store : store.Unasked decisionId)
  /-- it has been registered, and no call has answered the request -/
  | pending {registration : Registration} {asked : Record}
      (registered : RegisteredAs calls decisionId registration asked)
      (unanswered : Unanswered calls registration) (store : store.Pending decisionId asked)
  /-- it has been registered, and one call has answered the request -/
  | settled {registration : Registration} {answer : Answer} {asked recorded : Record}
      (registered : RegisteredAs calls decisionId registration asked)
      (answered : AnsweredBy calls registration answer)
      (store : store.Settled decisionId asked recorded answer)

section

variable {call : Call MemoryStore} {calls : List (Call MemoryStore)} {registration : Registration}
  {outcome : Outcome}

theorem registered_concat_iff : Registered (calls ++ [call]) decisionId registration ↔
    Registered calls decisionId registration ∨ call.Registers decisionId registration := by
  constructor
  · rintro ⟨other, hother, hregisters⟩
    rcases List.mem_append.mp hother with hother | hlast
    · exact .inl ⟨other, hother, hregisters⟩
    · exact .inr (List.mem_singleton.mp hlast ▸ hregisters)
  · rintro (⟨other, hother, hregisters⟩ | hregisters)
    · exact ⟨other, List.mem_append_left _ hother, hregisters⟩
    · exact ⟨call, by simp, hregisters⟩

theorem RegisteredAs.concat (h : RegisteredAs calls decisionId registration asked)
    (hlast : ∀ other, ¬ call.Registers decisionId other) :
    RegisteredAs (calls ++ [call]) decisionId registration asked := by
  refine ⟨registered_concat_iff.mpr (.inl h.registered), ?_, h.named, h.run⟩
  intro other hother
  exact h.once other ((registered_concat_iff.mp hother).resolve_right (hlast other))

theorem Unanswered.concat (h : Unanswered calls registration)
    (hlast : ∀ outcome, ¬ call.Answers registration outcome) :
    Unanswered (calls ++ [call]) registration := by
  intro other hother
  rcases List.mem_append.mp hother with hother | hother
  · exact h other hother
  · exact List.mem_singleton.mp hother ▸ hlast

theorem Unanswered.answeredBy (h : Unanswered calls registration)
    (hlast : call.Answers registration outcome) (hgiven : call.Gives answer) :
    AnsweredBy (calls ++ [call]) registration answer :=
  ⟨calls, call, [], rfl, ⟨outcome, hlast⟩, hgiven, by rwa [List.append_nil]⟩

theorem AnsweredBy.concat (h : AnsweredBy calls registration answer)
    (hlast : ∀ outcome, ¬ call.Answers registration outcome) :
    AnsweredBy (calls ++ [call]) registration answer := by
  obtain ⟨before, answering, after, rfl, hanswers, hgiven, hothers⟩ := h
  refine ⟨before, answering, after ++ [call], by simp, hanswers, hgiven, ?_⟩
  rw [← List.append_assoc]
  exact hothers.concat hlast

theorem AnsweredBy.not_unanswered (h : AnsweredBy calls registration answer) :
    ¬ Unanswered calls registration := by
  obtain ⟨before, answering, after, rfl, ⟨outcome, hanswers⟩, -⟩ := h
  exact fun hunanswered => hunanswered answering (by simp) outcome hanswers

/-- The call does not answer the request that `asked` has put on record. -/
def Call.Spares (call : Call MemoryStore) (asked : Record) : Prop :=
  ∀ outcome, call.answer = .ok (.resolved outcome) → outcome.targetEventId = asked.eventId →
    outcome.runId ≠ asked.runId

theorem RegisteredAs.not_answers (h : RegisteredAs calls decisionId registration asked)
    (hspares : call.Spares asked) (outcome : Outcome) : ¬ call.Answers registration outcome := by
  rintro ⟨hanswer, htarget, hanswered⟩
  exact hspares outcome hanswer (htarget.trans h.named) (hanswered.trans h.run)

theorem Call.spares_of_answer {reply : Except RequestError Reply} (h : call.answer = reply)
    (hother : ∀ outcome, reply ≠ .ok (.resolved outcome)) (asked : Record) : call.Spares asked :=
  fun outcome hanswer => absurd (h.symm.trans hanswer) (hother outcome)

theorem Call.not_registers_of_answer {reply : Except RequestError Reply}
    (h : call.answer = reply) (hother : ∀ registration, reply ≠ .ok (.registered registration))
    (registration : Registration) : ¬ call.Registers decisionId registration := by
  intro hregisters
  unfold Call.Registers at hregisters
  split at hregisters
  · exact hother registration (h.symm.trans hregisters.2)
  · exact hregisters

theorem Call.registers_iff {around : Surroundings} {request : ApprovalRequest}
    {other : Registration} (hoperation : call.operation = .register around request)
    (hanswer : call.answer = .ok (.registered registration)) :
    call.Registers decisionId other ↔ trim request.decisionId = decisionId ∧
      other = registration := by
  rw [Call.Registers, hoperation, hanswer]
  simp [eq_comm]

/-- A call that registers a decision which no call has registered is the one that does. -/
theorem registeredAs_of_registers (hnever : ∀ other, ¬ Registered calls decisionId other)
    (hregisters : ∀ other, call.Registers decisionId other ↔ other = registration)
    (hnamed : registration.eventId = r.eventId) (hrun : registration.runId = r.runId) :
    RegisteredAs (calls ++ [call]) decisionId registration r := by
  refine ⟨registered_concat_iff.mpr (.inr ((hregisters _).mpr rfl)), ?_, hnamed, hrun⟩
  intro other hother
  exact (hregisters other).mp ((registered_concat_iff.mp hother).resolve_left (hnever other))

/-- A request that is new on record has not been answered before. -/
theorem AnsweredOnRecord.unanswered {s t : MemoryStore} (h : AnsweredOnRecord calls s)
    (hs : s.Sound) (haccepts : s.Accepts r t) (hnamed : registration.eventId = r.eventId)
    (hrun : registration.runId = r.runId) : Unanswered calls registration := by
  rintro call hcall outcome ⟨hanswer, htarget, hanswered⟩
  obtain ⟨asked, hmem, hid⟩ := h call hcall outcome hanswer
  obtain ⟨⟨log, hlog⟩, -⟩ := hs
  obtain ⟨hasked, haskedRun⟩ := hlog.mem_readOrder.mp hmem
  exact hlog.fresh haccepts.appended asked hasked (haskedRun.trans (hanswered.trans hrun))
    (hid.trans (htarget.trans hnamed))

theorem AnsweredOnRecord.next (h : AnsweredOnRecord calls call.ledger.store) (htakes : call.Takes)
    (hs : call.ledger.store.Sound) : AnsweredOnRecord (calls ++ [call]) call.next.store := by
  intro other hother outcome hanswer
  rcases List.mem_append.mp hother with hother | hlast
  · obtain ⟨asked, hmem, hid⟩ := h other hother outcome hanswer
    exact ⟨asked, MemoryStore.mem_readOrder_of_chain hs call.chain hmem, hid⟩
  · obtain rfl := List.mem_singleton.mp hlast
    cases htakes with
    | refused _ hrefused => cases hrefused.symm.trans hanswer
    | asks _ hregistered => cases hregistered.symm.trans hanswer
    | settles hresolved _ hnames hsettles =>
      obtain ⟨request, hwaits, -⟩ := hsettles.closes
      cases hresolved.symm.trans hanswer
      refine ⟨_, ?_, hnames.target.symm⟩
      rw [hnames.run, hsettles.run]
      exact MemoryStore.mem_readOrder_of_chain hs other.chain hwaits.mem

namespace Stage

variable {store : MemoryStore}

/-- A call that has to do with other decisions leaves the decision where it is. -/
theorem concat (h : Stage decisionId calls call.ledger.store)
    (hregisters : ∀ registration, ¬ call.Registers decisionId registration)
    (hunasked : call.ledger.store.Unasked decisionId → store.Unasked decisionId)
    (hpending : ∀ asked, call.ledger.store.Pending decisionId asked →
      store.Pending decisionId asked ∧ call.Spares asked)
    (hsettled : ∀ asked recorded answer,
      call.ledger.store.Settled decisionId asked recorded answer →
        store.Settled decisionId asked recorded answer ∧ call.Spares asked) :
    Stage decisionId (calls ++ [call]) store := by
  cases h with
  | unasked never hstore =>
    refine .unasked (fun registration hregistered => ?_) (hunasked hstore)
    exact (registered_concat_iff.mp hregistered).elim (never registration)
      (hregisters registration)
  | pending registered unanswered hstore =>
    obtain ⟨hstore, hspares⟩ := hpending _ hstore
    exact .pending (registered.concat hregisters)
      (unanswered.concat (registered.not_answers hspares)) hstore
  | settled registered answered hstore =>
    obtain ⟨hstore, hspares⟩ := hsettled _ _ _ hstore
    exact .settled (registered.concat hregisters)
      (answered.concat (registered.not_answers hspares)) hstore

/-- A call that is refused leaves the decision where it is. -/
theorem refused (h : Stage decisionId calls call.ledger.store) {error : RequestError}
    (hanswer : call.answer = .error error) (hkept : call.next.store = call.ledger.store) :
    Stage decisionId (calls ++ [call]) call.next.store := by
  have hspares := Call.spares_of_answer hanswer (by simp)
  rw [hkept]
  exact h.concat (Call.not_registers_of_answer hanswer (by simp)) id
    (fun asked h => ⟨h, hspares asked⟩) fun asked _ _ h => ⟨h, hspares asked⟩

/-- A call that asks for an approval registers the decision, or has to do with another. -/
theorem asks (h : Stage decisionId calls call.ledger.store) (hs : call.ledger.store.Sound)
    (hrecorded : AnsweredOnRecord calls call.ledger.store) {around : Surroundings}
    {request : ApprovalRequest} (hoperation : call.operation = .register around request)
    (hanswer : call.answer = .ok (.registered registration))
    (hasks : call.ledger.store.Asks (trim request.decisionId) r call.next.store)
    (hnamed : registration.eventId = r.eventId) (hrun : registration.runId = r.runId) :
    Stage decisionId (calls ++ [call]) call.next.store := by
  have hspares := Call.spares_of_answer hanswer (by simp)
  by_cases hdecision : trim request.decisionId = decisionId
  · subst hdecision
    cases h with
    | unasked never hstore =>
      have hregistered : RegisteredAs (calls ++ [call]) (trim request.decisionId) registration r := by
        refine registeredAs_of_registers never (fun other => ?_) hnamed hrun
        rw [Call.registers_iff hoperation hanswer, and_iff_right rfl]
      have hunanswered := hrecorded.unanswered hs hasks.accepted hnamed hrun
      exact .pending hregistered (hunanswered.concat (hregistered.not_answers (hspares r)))
        (hstore.asks hs hasks)
    | pending _ _ hstore => exact absurd hasks (hstore.not_asks hs)
    | settled _ _ hstore => exact absurd hasks hstore.not_asks
  · have hother : r.carries decisionId = false :=
      Bool.eq_false_iff.mpr fun hcarries => hdecision (hasks.carries_iff.mp hcarries)
    refine h.concat ?_ (fun h => h.accepts hs hasks.accepted hother) ?_ ?_
    · intro other hregisters
      exact hdecision ((Call.registers_iff hoperation hanswer).mp hregisters).1
    · exact fun asked h =>
        ⟨h.accepts hs hasks.accepted hother (h.runId_ne_of_asks hasks), hspares asked⟩
    · exact fun asked _ _ h => ⟨h.accepts hs hasks.accepted hother, hspares asked⟩

/-- A call that closes a request settles the decision, or has to do with another. -/
theorem settles (h : Stage decisionId calls call.ledger.store) (hs : call.ledger.store.Sound)
    (hanswer : call.answer = .ok (.resolved outcome)) (hgiven : call.Gives outcome.answer)
    (hnames : outcome.Names asked recorded)
    (hsettles : call.ledger.store.Settles asked outcome.answer recorded call.next.store) :
    Stage decisionId (calls ++ [call]) call.next.store := by
  obtain ⟨request, hwaits, hcloses⟩ := hsettles.closes
  have haccepts := hcloses.accepted
  have hregisters : ∀ registration, ¬ call.Registers decisionId registration :=
    Call.not_registers_of_answer hanswer (by simp)
  have hrun : outcome.runId = asked.runId := hnames.run.trans hsettles.run
  by_cases hcarries : asked.carries decisionId = true
  · cases h with
    | unasked never hstore =>
      rw [hstore asked (hwaits.mem_records hs)] at hcarries
      cases hcarries
    | pending registered unanswered hstore =>
      obtain rfl := hstore.only asked (hwaits.mem_records hs) hcarries
      have hanswers : call.Answers _ outcome :=
        ⟨hanswer, hnames.target.trans registered.named.symm, hrun.trans registered.run.symm⟩
      exact .settled (registered.concat hregisters) (unanswered.answeredBy hanswers hgiven)
        (hstore.settles hs hsettles)
    | settled _ _ hstore =>
      rw [hstore.carries_eq_false_of_waitsOn hs hwaits] at hcarries
      cases hcarries
  · have hother : recorded.carries decisionId = false :=
      hsettles.carries_eq.trans (Bool.eq_false_iff.mpr hcarries)
    refine h.concat hregisters (fun h => h.accepts hs haccepts hother) ?_ ?_
    · intro waiting h
      have hapart : asked.runId ≠ waiting.runId :=
        fun heq => hcarries (h.eq_of_settles hs hsettles heq ▸ h.carries)
      refine ⟨h.accepts hs haccepts hother (hsettles.run.trans_ne hapart), ?_⟩
      rintro outcome' hanswer' -
      cases hanswer.symm.trans hanswer'
      exact hrun.trans_ne hapart
    · intro closed _ _ h
      refine ⟨h.accepts hs haccepts hother, ?_⟩
      intro outcome' hanswer' htarget heq
      cases hanswer.symm.trans hanswer'
      have hclosed : closed ∈ call.ledger.store.readOrder asked.runId :=
        hrun.symm.trans heq ▸ h.mem
      have hsame := hs.eq_of_eventId hwaits.mem hclosed (hnames.target.symm.trans htarget)
      exact hcarries (hsame ▸ h.carries.1)

theorem next (h : Stage decisionId calls call.ledger.store) (htakes : call.Takes)
    (hs : call.ledger.store.Sound) (hrecorded : AnsweredOnRecord calls call.ledger.store) :
    Stage decisionId (calls ++ [call]) call.next.store := by
  cases htakes with
  | refused _ hanswer hkept => exact h.refused hanswer hkept
  | asks hoperation hanswer hasks hnamed hrun =>
    exact h.asks hs hrecorded hoperation hanswer hasks hnamed hrun
  | settles hanswer hgiven hnames hsettles => exact h.settles hs hanswer hgiven hnames hsettles

end Stage

end

namespace Ledger

/-- What asking and answering make of a fresh ledger, and of every policy decision. -/
theorem stage_after (operations : List (Operation MemoryStore))
    (hasks : ∀ operation ∈ operations, operation.IsApproval) (decisionId : String) :
    (inMemory.after operations).store.OnlyApprovals ∧
      AnsweredOnRecord (inMemory.calls operations) (inMemory.after operations).store ∧
      Stage decisionId (inMemory.calls operations) (inMemory.after operations).store := by
  induction operations using List.reverseRecOn with
  | nil =>
    refine ⟨?_, ?_, .unasked ?_ ?_⟩
    · rintro r ⟨⟩
    · rintro call ⟨⟩
    · rintro registration ⟨call, ⟨⟩, -⟩
    · rintro r ⟨⟩
  | append_singleton operations operation ih =>
    obtain ⟨honly, hrecorded, hstage⟩ :=
      ih fun earlier hmem => hasks earlier (List.mem_append_left _ hmem)
    have hs := sound_after operations
    have htakes : (Call.mk (inMemory.after operations) operation).Takes :=
      Call.takes (hasks operation (by simp)) hs honly
    rw [calls_append, after_append]
    exact ⟨htakes.onlyApprovals hs honly, hrecorded.next htakes hs, hstage.next htakes hs hrecorded⟩

/-- The ledger says that the policy decision has the status. -/
def Tells (ledger : Ledger MemoryStore) (decisionId : String) (status : ApprovalStatus) : Prop :=
  ∃ state, (decisionState decisionId ledger).1 = .ok state ∧ state.status = status

theorem Tells.unique {ledger : Ledger MemoryStore} {status status' : ApprovalStatus}
    (h : ledger.Tells decisionId status) (h' : ledger.Tells decisionId status') :
    status' = status := by
  obtain ⟨state, hstate, rfl⟩ := h
  obtain ⟨state', hstate', rfl⟩ := h'
  cases hstate.symm.trans hstate'
  rfl

theorem Tells.ne_error {ledger : Ledger MemoryStore} {status : ApprovalStatus}
    (h : ledger.Tells decisionId status) (error : RequestError) :
    (decisionState decisionId ledger).1 ≠ .error error := by
  obtain ⟨state, hstate, -⟩ := h
  rw [hstate]
  rintro ⟨⟩

/-- Whatever approvals have been asked for and whatever requests have been answered on a fresh
ledger, by whichever way the requests were found and with whatever refused in between: a policy
decision is not found exactly if no call has registered it; it is pending exactly if it has been
registered and no call has answered the request, and then the list of what waits has one entry for
it; and otherwise one call has answered the request, its answer is the status of the decision, and
the list has no entry for it. -/
theorem decisions_are_told_as_answered (operations : List (Operation MemoryStore))
    (hasks : ∀ operation ∈ operations, operation.IsApproval) (decisionId : String)
    (htrim : trim decisionId = decisionId) :
    ∃ waiting, (waitingRequests (inMemory.after operations)).1 = .ok waiting ∧
      ((decisionState decisionId (inMemory.after operations)).1 =
          .error (.approvalNotFound decisionId .decisionId) ↔
        ∀ registration, ¬ Registered (inMemory.calls operations) decisionId registration) ∧
      ((inMemory.after operations).Tells decisionId .pending ↔
        ∃ registration, Registered (inMemory.calls operations) decisionId registration ∧
          Unanswered (inMemory.calls operations) registration) ∧
      ∀ registration, Registered (inMemory.calls operations) decisionId registration →
        (Unanswered (inMemory.calls operations) registration →
          ∃ w, waiting.filter (fun w => w.decisionId == some decisionId) = [w] ∧
            w.eventId = registration.eventId ∧ w.runId = registration.runId) ∧
        (¬ Unanswered (inMemory.calls operations) registration →
          ∃ answer, AnsweredBy (inMemory.calls operations) registration answer ∧
            (inMemory.after operations).Tells decisionId answer.status ∧
            ∀ w ∈ waiting, w.decisionId ≠ some decisionId) := by
  have hs := sound_after operations
  obtain ⟨-, -, hstage⟩ := stage_after operations hasks decisionId
  have hwaiting := congrArg Prod.fst (waitingRequests_apply hs)
  refine ⟨_, hwaiting, ?_⟩
  cases hstage with
  | unasked never hstore =>
    have htold := hstore.decisionState htrim
    refine ⟨iff_of_true htold never, iff_of_false ?_ ?_, fun registration h => absurd h (never _)⟩
    · exact fun h => h.ne_error _ htold
    · rintro ⟨registration, h, -⟩
      exact never registration h
  | pending registered unanswered hstore =>
    have htold : Tells _ _ _ := hstore.decisionState hs htrim
    refine ⟨iff_of_false (htold.ne_error _) fun never => never _ registered.registered,
      iff_of_true htold ⟨_, registered.registered, unanswered⟩, fun other hother => ?_⟩
    obtain rfl := registered.once other hother
    obtain ⟨w, hfilter, hid, hrun⟩ := hstore.filter_waiting hs hwaiting
    exact ⟨fun _ => ⟨w, hfilter, hid.trans registered.named.symm, hrun.trans registered.run.symm⟩,
      fun hanswered => absurd unanswered hanswered⟩
  | @settled _ answer _ _ registered answered hstore =>
    have htold : Tells _ _ _ := hstore.decisionState htrim
    refine ⟨iff_of_false (htold.ne_error _) fun never => never _ registered.registered,
      iff_of_false ?_ ?_, fun other hother => ?_⟩
    · intro h
      have hstatus := h.unique htold
      cases answer <;> cases hstatus
    · rintro ⟨other, hother, hunanswered⟩
      obtain rfl := registered.once other hother
      exact answered.not_unanswered hunanswered
    · obtain rfl := registered.once other hother
      exact ⟨fun hunanswered => absurd hunanswered answered.not_unanswered,
        fun _ => ⟨answer, answered, htold, hstore.not_mem_waiting hs hwaiting⟩⟩

/-- The answer to the letter, with the strategies that are there from the start. -/
def letterGranted : Operation MemoryStore :=
  .resolve .standard Strategies.onlyDescribe_standard stillSurroundings (.decision "letter")
    ⟨.approved, "alice", none⟩

/-- The answer to the letter comes back and names what has been registered. -/
theorem answer_letterGranted :
    ∃ outcome, (Call.mk (Call.mk inMemory letterAsked).next letterGranted).answer =
        .ok (.resolved outcome) ∧
      outcome.targetEventId = "evt_letter_pending_19700101T000000000000Z_t" ∧
      outcome.runId = "run" := by
  have hs := sound_after [letterAsked]
  obtain ⟨honly, -, -⟩ :=
    stage_after [letterAsked] (by simp [letterAsked, Operation.IsApproval]) "letter"
  have hfound : targetEvent (.decision "letter") (inMemory.after [letterAsked]) =
      (.ok "evt_letter_pending_19700101T000000000000Z_t",
        (targetEvent (.decision "letter") (inMemory.after [letterAsked])).2) :=
    Prod.ext (by decide +kernel) rfl
  obtain ⟨⟨asked, recorded, before⟩, submitted, hrecorded, hreturn⟩ := bind_eq_ok_iff.mp
    (Prod.ext (by decide +kernel) rfl :
      (recordAnswer stillSurroundings "evt_letter_pending_19700101T000000000000Z_t"
          ⟨.approved, "alice", none⟩ >>= fun answered =>
            pure (answered.1.eventId, answered.2.1.runId))
        (targetEvent (.decision "letter") (inMemory.after [letterAsked])).2 =
      (.ok ("evt_letter_pending_19700101T000000000000Z_t", "run"), _))
  obtain ⟨hid, hrun⟩ := Prod.mk.inj (Except.ok.inj (Prod.mk.inj hreturn).1)
  obtain ⟨outcome, houtcome, hnames⟩ : ∃ outcome, Outcome.ofAnswer?
      (resolve .standard stillSurroundings (.decision "letter") ⟨.approved, "alice", none⟩
        (inMemory.after [letterAsked])).1 = some outcome ∧ outcome.Names asked recorded :=
    exists_outcome_of_recorded hfound hrecorded
  refine ⟨outcome, ?_, hnames.target.trans hid, hnames.run.trans hrun⟩
  rcases hresolve : resolve .standard stillSurroundings (.decision "letter")
    ⟨.approved, "alice", none⟩ (inMemory.after [letterAsked]) with ⟨answer, next⟩
  rw [hresolve] at houtcome
  -- What comes back is the outcome itself, since an error would come without one.
  obtain rfl : answer = .ok outcome := by
    rcases resolve_cases hs honly hresolve with ⟨error, rfl, hbare, -⟩ | ⟨given, _, _, rfl, -⟩
    · cases houtcome.symm.trans hbare
    · rw [← Option.some.inj houtcome]
  have hperform : letterGranted.perform (inMemory.after [letterAsked]) =
      (.ok (.resolved outcome), next) := bind_eq_ok_iff.mpr ⟨outcome, next, hresolve, rfl⟩
  exact congrArg Prod.fst hperform

/-- The decision on the letter is told as it has been answered, and is not waited for. -/
theorem letter_is_told_as_answered :
    ∃ waiting, (waitingRequests (inMemory.after [letterAsked, letterGranted])).1 = .ok waiting ∧
      (inMemory.after [letterAsked, letterGranted]).Tells "letter" .approved ∧
      ∀ w ∈ waiting, w.decisionId ≠ some "letter" := by
  obtain ⟨waiting, hwaiting, -, -, htold⟩ := decisions_are_told_as_answered
    [letterAsked, letterGranted] (by simp [letterAsked, letterGranted, Operation.IsApproval])
    "letter" (by decide +kernel)
  have hregistered : (Call.mk inMemory letterAsked).answer = .ok (.registered
      ⟨"letter", "evt_letter_pending_19700101T000000000000Z_t", "run", .pending, .epoch⟩) := by
    decide +kernel
  obtain ⟨-, hanswered⟩ := htold _ ⟨_, List.mem_cons_self, ⟨by decide +kernel, hregistered⟩⟩
  obtain ⟨answer, ⟨before, call, after, hcalls, -, hgiven, -⟩, hsays, hnone⟩ :=
    hanswered fun hunanswered => by
      obtain ⟨outcome, hanswer⟩ := answer_letterGranted
      exact hunanswered _ (List.mem_cons_of_mem _ List.mem_cons_self) outcome hanswer
  have hmem : call ∈ inMemory.calls [letterAsked, letterGranted] := by simp [hcalls]
  obtain rfl : answer = .approved := by
    rcases List.mem_cons.mp hmem with rfl | hmem
    · exact hgiven.elim
    · obtain rfl := List.mem_singleton.mp hmem
      exact hgiven.symm
  exact ⟨waiting, hwaiting, hsays, hnone⟩

end Ledger

end RunLedger
