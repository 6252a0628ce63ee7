/-
  Proofs/Approval/TriageRun.lean --- an approved triage ends its run.

  WHAT THIS FILE IS FOR.  Two events follow the approval of a triage request: the
  action that resumes the run and the summary that completes it.  Both are made from
  the request and its answer, one and two milliseconds after the answer, and nothing
  that the two can be makes the gate refuse them.  What may be in their way is their
  identifiers, which anybody may have used in the run.  Then the run is stopped, so
  that it ends in any case.
-/
import RunLedger.Proofs.Approval.ApprovalCall

set_option autoImplicit false

namespace RunLedger

open RunLedger.Text (trim)

/-! ## The dates of the two events -/

namespace Triage

variable (context : FollowUpContext)

theorem runId_followUp (hrun : trim context.request.runId = context.request.runId) :
    ∀ event ∈ followUp context, event.normalized.runId = context.request.runId := by
  intro event hevent
  simp only [followUp, List.mem_cons, List.not_mem_nil, or_false] at hevent
  rcases hevent with rfl | rfl <;> exact hrun

variable (hmicros : context.resolution.timestamp.toMicros = context.resolution.timestamp)

include hmicros

theorem timestamp_resumption :
    (resumption context).normalized.timestamp = context.resolution.timestamp.addMillis 1 :=
  Time.Instant.toMicros_addMillis (by decide) (by decide) hmicros

theorem timestamp_completion :
    (completion context).normalized.timestamp = context.resolution.timestamp.addMillis 2 :=
  Time.Instant.toMicros_addMillis (by decide) (by decide) hmicros

/-- What follows is later than the answer. -/
theorem lt_followUp :
    ∀ event ∈ followUp context, context.resolution.timestamp < event.normalized.timestamp := by
  intro event hevent
  simp only [followUp, List.mem_cons, List.not_mem_nil, or_false] at hevent
  rcases hevent with rfl | rfl
  · rw [timestamp_resumption context hmicros]
    exact Time.Instant.lt_addMillis (by decide) (by decide) _
  · rw [timestamp_completion context hmicros]
    exact Time.Instant.lt_addMillis (by decide) (by decide) _

/-- What follows is dated in its order. -/
theorem pairwise_followUp :
    (followUp context).Pairwise fun a b => a.normalized.timestamp < b.normalized.timestamp := by
  refine List.pairwise_pair.mpr ?_
  rw [timestamp_resumption context hmicros, timestamp_completion context hmicros]
  exact Time.Instant.addMillis_lt_addMillis (by decide) (by decide) (by decide) _

end Triage

/-! ## The two events -/

namespace Triage

variable {context : FollowUpContext}

theorem problems_resumption (hfaultless : context.request.event.problems = []) :
    (resumption context).normalized.problems = [] := by
  obtain ⟨hconfidence, -, -, hrun, -⟩ := Event.problems_eq_nil_iff.mp hfaultless
  have hid : Text.isBlankText (context.request.event.id ++ "_resume") = false :=
    Text.isBlankText_eq_false (c := 'r') (by simp) (by decide)
  have hdetails : Text.isBlankText (resumption context).details = false := by
    have h : (resumption context).details = "Approval granted by " ++
      context.resolution.event.approval.resolvedBy.getD "human_reviewer" ++
        "; continuing the gated action." := rfl
    rw [h]
    exact Text.isBlankText_eq_false (c := 'A') (by simp) (by decide)
  have htitle : Text.isBlankText "Resume triage after approval" = false := by decide
  exact Event.problems_normalized_eq_nil_iff.mpr ⟨hconfidence, hdetails, hid, hrun, htitle⟩

theorem problems_completion (hfaultless : context.request.event.problems = []) :
    (completion context).normalized.problems = [] := by
  obtain ⟨-, -, -, hrun, -⟩ := Event.problems_eq_nil_iff.mp hfaultless
  have hid : Text.isBlankText (context.request.event.id ++ "_complete") = false :=
    Text.isBlankText_eq_false (c := 'c') (by simp) (by decide)
  have hdetails : Text.isBlankText
      "Inbox triage finished after the approved action was executed." = false := by decide
  have htitle : Text.isBlankText "Triage complete" = false := by decide
  refine Event.problems_normalized_eq_nil_iff.mpr ⟨?_, hdetails, hid, hrun, htitle⟩
  rintro x ⟨⟩

/-- The action comes with evidence, whatever its risk. -/
theorem kindRules_resumption (history : List Record) (p : RunState) :
    Gate.kindRules (resumption context).normalized history p = [] := by
  have hkind : (resumption context).normalized.kind = .action := rfl
  have hevidence : (resumption context).normalized.evidence.isEmpty = false := rfl
  rw [Gate.kindRules, hkind]
  dsimp only
  rw [Gate.actionRules, hevidence, Bool.and_false, if_neg (by decide)]

/-- The action resumes a run that is approved. -/
theorem moves_resumption :
    RunState.Moves ⟨.approved, none⟩ (resumption context).normalized ⟨.running, none⟩ := by
  have hneutral : (resumption context).normalized.IsNeutral := ⟨rfl, rfl, rfl⟩
  exact .passes ⟨rfl, by simp⟩ hneutral

theorem kindRules_completion (history : List Record) :
    Gate.kindRules (completion context).normalized history ⟨.running, none⟩ = [] := rfl

/-- The summary completes a run that goes on. -/
theorem moves_completion :
    RunState.Moves ⟨.running, none⟩ (completion context).normalized ⟨.completed, none⟩ :=
  .ends rfl rfl

/-- An identifier that stands on record can be continued. -/
theorem trim_append {id : String} (htrimmed : trim id = id) (hid : Text.isBlankText id = false)
    {suffix : String} {front : List Char} {last : Char} (hsuffix : suffix.toList = front ++ [last])
    (hlast : Text.isBlank last = false) : trim (id ++ suffix) = id ++ suffix := by
  have hchars : Text.trimChars id.toList = id.toList := by
    conv_rhs => rw [← htrimmed]
    rw [Text.trim, String.toList_ofList]
  have hne : id.toList ≠ [] := by
    intro hnil
    rw [Text.isBlankText, hnil] at hid
    cases hid
  rw [Text.trim, String.toList_append, hsuffix, ← List.append_assoc,
    Text.trimChars_append_eq_self hchars hne hlast, List.append_assoc, ← hsuffix,
    ← String.toList_append, String.ofList_toList]

end Triage

/-! ## The run behind the approval -/

/-- The store holds the answer `recorded` to the triage request `asked`, which approves it, at the
end of their run. -/
structure MemoryStore.HoldsApproval (store : MemoryStore) (asked recorded : Record) : Prop where
  sound : store.Sound
  asked_mem : asked ∈ store.readOrder asked.runId
  faultless : asked.event.problems = []
  run : recorded.runId = asked.runId
  micros : recorded.timestamp.toMicros = recorded.timestamp
  latest : ∀ x ∈ store.readOrder asked.runId, x.timestamp ≤ recorded.timestamp
  state : RunState.ofRecords (store.readOrder asked.runId) = .ok ⟨.approved, none⟩

namespace MemoryStore.HoldsApproval

variable {store t : MemoryStore} {asked recorded r : Record}

theorem normal (h : store.HoldsApproval asked recorded) : asked.event.normalized = asked.event := by
  obtain ⟨⟨log, hlog⟩, -⟩ := h.sound
  exact hlog.normal asked (hlog.mem_readOrder.mp h.asked_mem).1

theorem trim_runId (h : store.HoldsApproval asked recorded) : trim asked.runId = asked.runId :=
  congrArg Event.runId h.normal

theorem trim_append_id (h : store.HoldsApproval asked recorded) {suffix : String}
    {front : List Char} {last : Char} (hsuffix : suffix.toList = front ++ [last])
    (hlast : Text.isBlank last = false) :
    trim (asked.eventId ++ suffix) = asked.eventId ++ suffix := by
  obtain ⟨-, -, hid, -, -⟩ := Event.problems_eq_nil_iff.mp h.faultless
  exact Triage.trim_append (congrArg Event.id h.normal) hid hsuffix hlast

theorem id_resumption (h : store.HoldsApproval asked recorded) :
    (Triage.resumption ⟨asked, recorded⟩).normalized.id = asked.eventId ++ "_resume" := by
  have hends : "_resume".toList = "_resum".toList ++ ['e'] := by decide
  exact h.trim_append_id hends (by decide)

theorem id_completion (h : store.HoldsApproval asked recorded) :
    (Triage.completion ⟨asked, recorded⟩).normalized.id = asked.eventId ++ "_complete" := by
  have hends : "_complete".toList = "_complet".toList ++ ['e'] := by decide
  exact h.trim_append_id hends (by decide)

theorem runId_resumption (h : store.HoldsApproval asked recorded) :
    (Triage.resumption ⟨asked, recorded⟩).normalized.runId = asked.runId := h.trim_runId

theorem runId_completion (h : store.HoldsApproval asked recorded) :
    (Triage.completion ⟨asked, recorded⟩).normalized.runId = asked.runId := h.trim_runId

/-- The run goes on with the action that resumes it. -/
theorem goesOnWith_resumption (h : store.HoldsApproval asked recorded) :
    store.GoesOnWith (Triage.resumption ⟨asked, recorded⟩) ⟨.running, none⟩ := by
  refine ⟨Triage.problems_resumption h.faultless, ?_, ⟨.approved, none⟩, ?_,
    Triage.kindRules_resumption _ _, Triage.moves_resumption⟩
  · rw [h.runId_resumption]
    intro x hx
    exact lt_of_le_of_lt (h.latest x hx)
      (Triage.lt_followUp ⟨asked, recorded⟩ h.micros _ List.mem_cons_self)
  · rw [h.runId_resumption]
    exact h.state

/-- Behind that action the run goes on with the summary that completes it. -/
theorem goesOnWith_completion (h : store.HoldsApproval asked recorded)
    (hlast : store.ComesLast r t)
    (hevent : r.event = (Triage.resumption ⟨asked, recorded⟩).normalized)
    (hstate : RunState.ofRecords (t.readOrder asked.runId) = .ok ⟨.running, none⟩) :
    t.GoesOnWith (Triage.completion ⟨asked, recorded⟩) ⟨.completed, none⟩ := by
  have hrun : r.runId = asked.runId := by rw [Record.runId, hevent, h.runId_resumption]
  have hread := hlast.read
  rw [hrun] at hread
  refine ⟨Triage.problems_completion h.faultless, ?_, ⟨.running, none⟩, ?_,
    Triage.kindRules_completion _, Triage.moves_completion⟩
  · rw [h.runId_completion, hread]
    intro x hx
    rcases List.mem_append.mp hx with hold | hnew
    · exact lt_of_le_of_lt (h.latest x hold) (Triage.lt_followUp ⟨asked, recorded⟩ h.micros _
        (List.mem_cons_of_mem _ List.mem_cons_self))
    · rw [List.mem_singleton.mp hnew, Record.timestamp, hevent]
      exact (List.pairwise_cons.mp (Triage.pairwise_followUp ⟨asked, recorded⟩ h.micros)).1 _
        List.mem_cons_self
  · rw [h.runId_completion]
    exact hstate

end MemoryStore.HoldsApproval

/-! ## The approval -/

namespace Resolution

variable {resolution : Resolution} {target : Record} {at_ : Time.Instant} {token : String}

theorem role_toEvent (happroved : resolution.answer = .approved) :
    (resolution.toEvent target at_ token).normalized.role = .answers := by
  refine Event.role_eq_answers_iff.mpr ⟨?_, isAnswer_toEvent _ _ _ _⟩
  have hstep : (resolution.toEvent target at_ token).normalized.step? =
      some resolution.answer.step := rfl
  have hkind : (resolution.toEvent target at_ token).normalized.kind = .approvalResolved := rfl
  rw [Event.ending?, hkind, hstep, happroved]
  rfl

theorem verdict_toEvent (happroved : resolution.answer = .approved) :
    (resolution.toEvent target at_ token).normalized.verdict = .approved := by
  have hstatus : (resolution.toEvent target at_ token).normalized.approval.status =
      resolution.answer.status := rfl
  rw [Event.verdict, hstatus, happroved]
  rfl

/-- The identifier of an answer is longer than those of the events that follow it. -/
theorem lt_length_id_toEvent :
    target.eventId.length + 9 < (resolution.toEvent target at_ token).normalized.id.length := by
  have hlength := (isPrefix_id_toEvent resolution target at_ token).length_le
  have hname : resolution.answer.name.length = 8 := by cases resolution.answer <;> decide
  simp only [answerPrefix, List.length_append, String.toList_append, String.length_toList,
    List.length_singleton, hname] at hlength
  have happend : "apr_".length = 4 := by decide
  have hunderscore : "_".length = 1 := by decide
  omega

end Resolution

namespace Ledger

variable {ledger submitted : Ledger MemoryStore} {around : Surroundings} {resolution : Resolution}
  {eventId : String} {asked recorded : Record} {before : RunStatus}

/-- A run whose request has been approved is approved, and nothing in it is later than the
answer. -/
theorem holdsApproval_of_recordAnswer (hs : ledger.store.Sound)
    (hfaultless : ledger.store.Faultless) (happroved : resolution.answer = .approved)
    (h : recordAnswer around eventId resolution ledger =
      (.ok (asked, recorded, before), submitted)) :
    ledger.store.ComesLast recorded submitted.store ∧
      submitted.store.HoldsApproval asked recorded := by
  obtain ⟨-, -, ⟨request, hwaits⟩, hevent, haccepts, -⟩ := waitsFor_of_recordAnswer hs h
  obtain ⟨hrun, hlast⟩ := comesLast_of_answerTo hs hwaits hevent haccepts
  obtain ⟨p, q, -, hmoves, hstate⟩ := hlast.exists_moves
  have hrole : recorded.event.role = .answers := hevent ▸ Resolution.role_toEvent happroved
  obtain ⟨-, -, -, rfl⟩ := (RunState.moves_iff_of_answers hrole).mp hmoves
  have hverdict : recorded.event.verdict = .approved :=
    hevent ▸ Resolution.verdict_toEvent happroved
  rw [hverdict, hrun] at hstate
  refine ⟨hlast, hs.accepts haccepts, ?_, hfaultless asked.runId asked hwaits.mem, hrun, ?_, ?_,
    hstate⟩
  · exact (haccepts.mem_readOrder hs).mpr (.inl hwaits.mem)
  · exact congrArg Event.timestamp (MemoryStore.recorded haccepts.appended).1.symm
  · rw [← hrun, hlast.read]
    intro x hx
    rcases List.mem_append.mp hx with hold | hnew
    · exact le_of_lt (hlast.later x hold)
    · rw [List.mem_singleton.mp hnew]

/-- The answer does not use the identifiers of what follows it. -/
theorem uses_iff_of_answerTo {suffix : String} (hsuffix : suffix.length ≤ 9) {s t : MemoryStore}
    (hlast : s.ComesLast recorded t) (hrun : recorded.runId = asked.runId)
    (hevent : recorded.event = ledger.answerTo around resolution asked) :
    t.Uses asked.runId (asked.eventId ++ suffix) ↔
      s.Uses asked.runId (asked.eventId ++ suffix) := by
  rw [← hrun, hlast.uses_iff]
  refine or_iff_left fun heq => ?_
  have hlength : asked.eventId.length + 9 < recorded.eventId.length := by
    have hid : recorded.eventId = (ledger.answerTo around resolution asked).id :=
      congrArg Event.id hevent
    rw [hid]
    exact Resolution.lt_length_id_toEvent
  rw [heq, String.length_append] at hlength
  omega

end Ledger

/-! ## What becomes of the two events -/

namespace Ledger

variable {ledger : Ledger MemoryStore} {asked recorded : Record}

/-- If the identifier of the action is in use, nothing follows. -/
theorem submitEach_of_uses_resume (h : ledger.store.HoldsApproval asked recorded)
    (hused : ledger.store.Uses asked.runId (asked.eventId ++ "_resume")) :
    submitEach (Triage.followUp ⟨asked, recorded⟩) ledger =
      (.ok ([], some (.store (.duplicateEvent (asked.eventId ++ "_resume") asked.runId))),
        ledger) := by
  rw [← h.id_resumption, ← h.runId_resumption] at hused ⊢
  exact submitEach_of_error (submit_of_uses h.sound h.goesOnWith_resumption hused) _

/-- If it is not, the action resumes the run. -/
theorem exists_resumed (h : ledger.store.HoldsApproval asked recorded)
    (hnew : ¬ ledger.store.Uses asked.runId (asked.eventId ++ "_resume")) :
    ∃ r t, submit (Triage.resumption ⟨asked, recorded⟩) ledger = (.ok r, ⟨t, ledger.drawn⟩) ∧
      r.event = (Triage.resumption ⟨asked, recorded⟩).normalized ∧
      r.eventId = asked.eventId ++ "_resume" ∧ r.runId = asked.runId ∧
      ledger.store.ComesLast r t ∧
      RunState.ofRecords (t.readOrder asked.runId) = .ok ⟨.running, none⟩ := by
  rw [← h.id_resumption, ← h.runId_resumption] at hnew
  obtain ⟨r, t, hsubmit, hevent, hlast, hstate⟩ :=
    exists_comesLast_of_submit h.sound h.goesOnWith_resumption hnew
  rw [h.runId_resumption] at hstate
  refine ⟨r, t, hsubmit, hevent, ?_, ?_, hlast, hstate⟩
  · rw [Record.eventId, hevent, h.id_resumption]
  · rw [Record.runId, hevent, h.runId_resumption]

theorem resume_ne_complete (id : String) : id ++ "_resume" ≠ id ++ "_complete" := by
  intro heq
  have hlength := congrArg String.length heq
  rw [String.length_append, String.length_append] at hlength
  have hresume : "_resume".length = 7 := by decide
  have hcomplete : "_complete".length = 9 := by decide
  omega

/-- If the identifier of the summary is in use, the action alone follows. -/
theorem exists_submitEach_of_uses_complete (h : ledger.store.HoldsApproval asked recorded)
    (hnew : ¬ ledger.store.Uses asked.runId (asked.eventId ++ "_resume"))
    (hused : ledger.store.Uses asked.runId (asked.eventId ++ "_complete")) :
    ∃ r t, submitEach (Triage.followUp ⟨asked, recorded⟩) ledger =
        (.ok ([asked.eventId ++ "_resume"],
          some (.store (.duplicateEvent (asked.eventId ++ "_complete") asked.runId))),
            ⟨t, ledger.drawn⟩) ∧
      r.eventId = asked.eventId ++ "_resume" ∧ r.runId = asked.runId ∧
      ledger.store.ComesLast r t ∧
      RunState.ofRecords (t.readOrder asked.runId) = .ok ⟨.running, none⟩ := by
  obtain ⟨r, t, hsubmit, hevent, hid, hrun, hlast, hstate⟩ := exists_resumed h hnew
  have hgoes := h.goesOnWith_completion hlast hevent hstate
  have hstill : t.Uses asked.runId (asked.eventId ++ "_complete") := by
    rw [← hrun] at hused ⊢
    exact hlast.uses_iff.mpr (.inl hused)
  rw [← h.id_completion, ← h.runId_completion] at hstill
  have hrefused : submit (Triage.completion ⟨asked, recorded⟩) (Ledger.mk t ledger.drawn) = _ :=
    submit_of_uses (h.sound.accepts hlast.accepted) hgoes hstill
  rw [h.id_completion, h.runId_completion] at hrefused
  refine ⟨r, t, ?_, hid, hrun, hlast, hstate⟩
  rw [← hid]
  exact submitEach_of_ok hsubmit (submitEach_of_error hrefused [])

/-- Otherwise both follow, and complete the run. -/
theorem exists_submitEach_of_new (h : ledger.store.HoldsApproval asked recorded)
    (hnew : ¬ ledger.store.Uses asked.runId (asked.eventId ++ "_resume"))
    (hnew' : ¬ ledger.store.Uses asked.runId (asked.eventId ++ "_complete")) :
    ∃ t, submitEach (Triage.followUp ⟨asked, recorded⟩) ledger =
        (.ok ([asked.eventId ++ "_resume", asked.eventId ++ "_complete"], none),
          ⟨t, ledger.drawn⟩) ∧
      RunState.ofRecords (t.readOrder asked.runId) = .ok ⟨.completed, none⟩ := by
  obtain ⟨r, t, hsubmit, hevent, hid, hrun, hlast, hstate⟩ := exists_resumed h hnew
  have hgoes := h.goesOnWith_completion hlast hevent hstate
  have hfree : ¬ t.Uses asked.runId (asked.eventId ++ "_complete") := by
    rw [← hrun] at hnew' ⊢
    rw [hlast.uses_iff, not_or, hid]
    exact ⟨hnew', resume_ne_complete asked.eventId⟩
  rw [← h.id_completion, ← h.runId_completion] at hfree
  obtain ⟨r', t', hsubmit', hevent', -, hstate'⟩ :
      ∃ r' t', submit (Triage.completion ⟨asked, recorded⟩) (Ledger.mk t ledger.drawn) =
        (.ok r', ⟨t', ledger.drawn⟩) ∧ _ :=
    exists_comesLast_of_submit (h.sound.accepts hlast.accepted) hgoes hfree
  have hid' : r'.eventId = asked.eventId ++ "_complete" := by
    rw [Record.eventId, hevent', h.id_completion]
  rw [h.runId_completion] at hstate'
  refine ⟨t', ?_, hstate'⟩
  rw [← hid, ← hid']
  exact submitEach_of_ok hsubmit (submitEach_of_ok hsubmit' rfl)

end Ledger

/-! ## The end of the run -/

namespace Ledger

variable {ledger submitted failed : Ledger MemoryStore} {around : Surroundings}
  {resolution : Resolution} {asked recorded : Record} {before : RunStatus} {cause : RequestError}

/-- What follows the approval of a triage are the two events. -/
theorem continueAnswer_triage (hworkflow : asked.event.workflow? = some Triage.workflow)
    (recorded : Record) (ledger : Ledger MemoryStore) :
    continueAnswer .standard ⟨asked, recorded⟩ .approved ledger =
      submitEach (Triage.followUp ⟨asked, recorded⟩) ledger := by
  rw [continueAnswer_apply Strategies.onlyDescribe_standard, described, hworkflow]
  rfl

theorem id_stopEvent (hworkflow : asked.event.workflow? = some Triage.workflow) :
    (ledger.stopEvent around asked cause).id =
      stopId Triage.workflow (around.token (ledger.drawn + 1)) := by
  rw [stopEvent, id_failureEvent, hworkflow]
  rfl

/-- An answer does not have the identifier of an event that stops a run. -/
theorem eventId_ne_stopId (hevent : recorded.event = ledger.answerTo around resolution asked)
    (workflow token : String) : recorded.eventId ≠ stopId workflow token := by
  intro heq
  have hid : recorded.eventId = (ledger.answerTo around resolution asked).id :=
    congrArg Event.id hevent
  have hanswer : answerPrefix asked.eventId <+: recorded.eventId.toList := by
    rw [hid]
    exact answerPrefix_toEvent _ _ _ _
  rw [heq] at hanswer
  obtain ⟨x, hx⟩ := hanswer
  obtain ⟨y, hy⟩ := isPrefix_stopId workflow token
  rw [← hy] at hx
  simp [answerPrefix] at hx

/-- What comes back when an event that should follow is refused: the failure, and a run that is
stopped. -/
theorem exists_conclude_stopped (hs : failed.store.Sound) (hfaultless : failed.store.Faultless)
    (hasked : asked ∈ failed.store.readOrder asked.runId) (hrun : recorded.runId = asked.runId)
    {p : RunState} (hstate : RunState.ofRecords (failed.store.readOrder asked.runId) = .ok p)
    (halive : p.status.isTerminal = false)
    (hfresh : ¬ failed.store.Uses asked.runId (failed.stopEvent around asked cause).id)
    {strategies : Strategies MemoryStore} {answer : Answer} {ids : List String}
    (hfollow : continueAnswer strategies ⟨asked, recorded⟩ answer submitted =
      (.ok (ids, some cause), failed)) :
    ∃ t, conclude strategies around asked recorded before answer submitted =
        (.error (.followUpFailed ⟨recorded.eventId, asked.eventId, asked.event.decision?,
          recorded.runId, answer, recorded.timestamp, before, .stopped, ids⟩ cause),
          ⟨t, failed.drawn + 1⟩) ∧
      RunState.ofRecords (t.readOrder asked.runId) = .ok ⟨.stopped, none⟩ ∧
      ∀ id, failed.store.Uses asked.runId id → t.Uses asked.runId id := by
  have hgoes : ¬ failed.store.HasEnded asked.runId := by
    rintro ⟨q, hq, hended⟩
    obtain rfl : q = p := Except.ok.inj (hq.symm.trans hstate)
    rw [halive] at hended
    cases hended
  obtain ⟨stop, t, hevent, haccepts, hended, hnote⟩ := exists_stop_of_recordFailure hs hfaultless
    hasked hgoes fun x hx hid => hfresh ⟨x, hx, hid⟩
  refine ⟨t, conclude_apply hfollow hnote (hrun ▸ hended.stands), hended.stands, ?_⟩
  rintro id ⟨x, hx, hid⟩
  exact ⟨x, (haccepts.mem_readOrder hs).mpr (.inl hx), hid⟩

/-- How the run of an approved triage request ends, with the store `s` before the approval and the
store `t` behind it, by what comes back. -/
inductive EndsTriage (s : MemoryStore) (asked : Record) (outcome : Outcome) (t : MemoryStore) :
    Except RequestError Outcome → Prop
  /-- both events follow and complete the run -/
  | completed (resumeNew : ¬ s.Uses asked.runId (asked.eventId ++ "_resume"))
      (completeNew : ¬ s.Uses asked.runId (asked.eventId ++ "_complete"))
      (ids : outcome.followUpIds = [asked.eventId ++ "_resume", asked.eventId ++ "_complete"])
      (after : outcome.after = .completed)
      (stands : RunState.ofRecords (t.readOrder asked.runId) = .ok ⟨.completed, none⟩) :
      EndsTriage s asked outcome t (.ok outcome)
  /-- the identifier of the action is in use: nothing follows and the run is stopped -/
  | notResumed (resumeUsed : s.Uses asked.runId (asked.eventId ++ "_resume"))
      (ids : outcome.followUpIds = []) (after : outcome.after = .stopped)
      (stands : RunState.ofRecords (t.readOrder asked.runId) = .ok ⟨.stopped, none⟩) :
      EndsTriage s asked outcome t (.error (.followUpFailed outcome
        (.store (.duplicateEvent (asked.eventId ++ "_resume") asked.runId))))
  /-- the identifier of the summary is in use: the action follows and the run is stopped -/
  | notCompleted (resumeNew : ¬ s.Uses asked.runId (asked.eventId ++ "_resume"))
      (completeUsed : s.Uses asked.runId (asked.eventId ++ "_complete"))
      (ids : outcome.followUpIds = [asked.eventId ++ "_resume"])
      (after : outcome.after = .stopped)
      (listed : t.Uses asked.runId (asked.eventId ++ "_resume"))
      (stands : RunState.ofRecords (t.readOrder asked.runId) = .ok ⟨.stopped, none⟩) :
      EndsTriage s asked outcome t (.error (.followUpFailed outcome
        (.store (.duplicateEvent (asked.eventId ++ "_complete") asked.runId))))

section

variable (before : RunStatus) (h : submitted.store.HoldsApproval asked recorded)
  (hfaultless : submitted.store.Faultless)
  (hworkflow : asked.event.workflow? = some Triage.workflow)
  (hfresh : ¬ submitted.store.Uses asked.runId
    (stopId Triage.workflow (around.token (submitted.drawn + 1))))
  (hapart : asked.eventId ++ "_resume" ≠
    stopId Triage.workflow (around.token (submitted.drawn + 1)))

include h hfaultless hworkflow hfresh hapart

/-- Where the action has followed, the run is stopped if the summary cannot follow. -/
theorem exists_conclude_of_uses_complete
    (hresume : ¬ submitted.store.Uses asked.runId (asked.eventId ++ "_resume"))
    (hcomplete : submitted.store.Uses asked.runId (asked.eventId ++ "_complete")) :
    ∃ outcome answer next,
      conclude .standard around asked recorded before .approved submitted = (answer, next) ∧
      outcome.before = before ∧
      EndsTriage submitted.store asked outcome next.store answer := by
  obtain ⟨r, t, hfollow, hid, hrun, hlast, hstands⟩ :=
    exists_submitEach_of_uses_complete h hresume hcomplete
  have hsound : t.Sound := h.sound.accepts hlast.accepted
  have hfaultless : t.Faultless := hfaultless.of_chain h.sound (.single ⟨r, hlast.accepted⟩)
  have hasked : asked ∈ t.readOrder asked.runId :=
    (hlast.accepted.mem_readOrder h.sound).mpr (.inl h.asked_mem)
  have hused : t.Uses asked.runId (asked.eventId ++ "_resume") := by
    rw [← hrun]
    exact hlast.uses_iff.mpr (.inr hid)
  have hfree : ¬ t.Uses asked.runId (stopEvent ⟨t, submitted.drawn⟩ around asked
      (.store (.duplicateEvent (asked.eventId ++ "_complete") asked.runId))).id := by
    rw [id_stopEvent hworkflow, ← hrun, hlast.uses_iff, not_or, hid, hrun]
    exact ⟨hfresh, hapart⟩
  have hcontinue := continueAnswer_triage hworkflow recorded submitted
  rw [hfollow] at hcontinue
  obtain ⟨t', hconclude, hstate, hkept⟩ :=
    exists_conclude_stopped hsound hfaultless hasked h.run hstands rfl hfree hcontinue
  exact ⟨_, _, _, hconclude, rfl, .notCompleted hresume hcomplete rfl rfl (hkept _ hused) hstate⟩

/-- What is concluded from the approval of a triage request ends the run, if the identifier of the
event that would stop the run is free. -/
theorem exists_conclude_triage :
    ∃ outcome answer next,
      conclude .standard around asked recorded before .approved submitted = (answer, next) ∧
      outcome.before = before ∧
      EndsTriage submitted.store asked outcome next.store answer := by
  have hcontinue := continueAnswer_triage hworkflow recorded submitted
  by_cases hresume : submitted.store.Uses asked.runId (asked.eventId ++ "_resume")
  · rw [submitEach_of_uses_resume h hresume] at hcontinue
    obtain ⟨t, hconclude, hstate, -⟩ := exists_conclude_stopped h.sound hfaultless h.asked_mem h.run
      h.state rfl (id_stopEvent hworkflow ▸ hfresh) hcontinue
    exact ⟨_, _, _, hconclude, rfl, .notResumed hresume rfl rfl hstate⟩
  by_cases hcomplete : submitted.store.Uses asked.runId (asked.eventId ++ "_complete")
  · exact exists_conclude_of_uses_complete before h hfaultless hworkflow hfresh hapart hresume
      hcomplete
  · obtain ⟨t, hfollow, hstate⟩ := exists_submitEach_of_new h hresume hcomplete
    rw [hfollow] at hcontinue
    exact ⟨_, _, _, conclude_apply hcontinue rfl (h.run ▸ hstate), rfl,
      .completed hresume hcomplete rfl rfl hstate⟩

end

variable {s s' t : MemoryStore} {outcome : Outcome} {answer : Except RequestError Outcome}

/-- How the run ends depends on the store before only by the two identifiers. -/
theorem EndsTriage.of_uses_iff (h : EndsTriage s asked outcome t answer)
    (hresume : s.Uses asked.runId (asked.eventId ++ "_resume") ↔
      s'.Uses asked.runId (asked.eventId ++ "_resume"))
    (hcomplete : s.Uses asked.runId (asked.eventId ++ "_complete") ↔
      s'.Uses asked.runId (asked.eventId ++ "_complete")) :
    EndsTriage s' asked outcome t answer := by
  cases h with
  | completed resumeNew completeNew ids after stands =>
    exact .completed (hresume.not.mp resumeNew) (hcomplete.not.mp completeNew) ids after stands
  | notResumed resumeUsed ids after stands =>
    exact .notResumed (hresume.mp resumeUsed) ids after stands
  | notCompleted resumeNew completeUsed ids after listed stands =>
    exact .notCompleted (hresume.not.mp resumeNew) (hcomplete.mp completeUsed) ids after listed
      stands

/-- An approved triage request ends its run, if the identifier of the event that would stop the run
is neither in use nor that of the action. -/
theorem endsTriage_of_resolve {next : Ledger MemoryStore} {target : ApprovalTarget}
    (hs : ledger.store.Sound) (hfaultless : ledger.store.Faultless)
    (happroved : resolution.answer = .approved)
    (h : resolve .standard around target resolution ledger = (answer, next))
    (houtcome : Outcome.ofAnswer? answer = some outcome)
    (hasked : asked ∈ ledger.store.records) (hnamed : asked.eventId = outcome.targetEventId)
    (hworkflow : asked.event.workflow? = some Triage.workflow)
    (hfresh : ¬ ledger.store.Uses asked.runId
      (stopId Triage.workflow (around.token (ledger.drawn + 2))))
    (hapart : asked.eventId ++ "_resume" ≠
      stopId Triage.workflow (around.token (ledger.drawn + 2))) :
    outcome.before = .paused ∧ EndsTriage ledger.store asked outcome next.store answer := by
  have hcomes : Outcome.ofAnswer? (resolve .standard around target resolution ledger).1 =
      some outcome := by rw [h, houtcome]
  obtain ⟨opened, recorded, submitted, hnames, hrecorded, hresolve⟩ :=
    exists_recordAnswer_of_outcome hs hcomes
  obtain ⟨hwith, -, ⟨request, hwaits⟩, hevent, haccepts, hdrawn⟩ :=
    waitsFor_of_recordAnswer hs hrecorded
  -- The identifier of the request is in use once, so it is the request that was answered.
  obtain rfl : asked = opened := by
    obtain ⟨⟨log, hlog⟩, -⟩ := hs
    refine List.mem_singleton.mp (hwith ▸ hlog.mem_withId.mpr ?_)
    exact ⟨hlog.mem_records.mp hasked, hnamed.trans hnames.target⟩
  obtain ⟨hrun, -⟩ := comesLast_of_answerTo hs hwaits hevent haccepts
  obtain ⟨hlast, happroval⟩ := holdsApproval_of_recordAnswer hs hfaultless happroved hrecorded
  have hstop : ¬ submitted.store.Uses asked.runId
      (stopId Triage.workflow (around.token (submitted.drawn + 1))) := by
    rw [hdrawn, ← hrun, hlast.uses_iff, not_or, hrun]
    exact ⟨hfresh, eventId_ne_stopId hevent _ _⟩
  obtain ⟨concluded, answer', next', hconclude, hbefore, hends⟩ :=
    exists_conclude_triage .paused happroval
      (hfaultless.of_chain hs (.single ⟨recorded, haccepts⟩)) hworkflow hstop
      (hdrawn.symm ▸ hapart)
  rw [hresolve, happroved, hconclude] at h
  cases h
  obtain rfl : concluded = outcome := by cases hends <;> exact Option.some.inj houtcome
  refine ⟨hbefore, hends.of_uses_iff ?_ ?_⟩
  · exact uses_iff_of_answerTo (by decide) hlast hrun hevent
  · exact uses_iff_of_answerTo (by decide) hlast hrun hevent

/-- Whatever has been asked of a fresh ledger, in whatever order: when a triage request is approved
and an outcome comes back, then the run of the request ends.

* The outcome comes back by itself exactly if the run had no events with the identifiers of the
  two that should follow.  Then these two have followed, in their order, and the run is completed.
* Otherwise it comes back with the refusal of one of the two for its identifier, and the run is
  stopped.  If the action had followed by then, it is still on record.

The event that stops a run needs an identifier, too: the one for which a token is drawn then must
not be in use. -/
theorem approved_triage_ends_its_run (operations : List (Operation MemoryStore))
    (around : Surroundings) (target : ApprovalTarget) (resolution : Resolution)
    (answer : Except RequestError Outcome) (next : Ledger MemoryStore) (outcome : Outcome)
    (asked : Record) (happroved : resolution.answer = .approved)
    (h : resolve .standard around target resolution (inMemory.after operations) = (answer, next))
    (houtcome : Outcome.ofAnswer? answer = some outcome)
    (hasked : asked ∈ (inMemory.after operations).store.records)
    (hnamed : asked.eventId = outcome.targetEventId)
    (hworkflow : asked.event.workflow? = some Triage.workflow)
    (hfresh : ¬ (inMemory.after operations).store.Uses asked.runId
      (stopId Triage.workflow (around.token ((inMemory.after operations).drawn + 2))))
    (hapart : asked.eventId ++ "_resume" ≠
      stopId Triage.workflow (around.token ((inMemory.after operations).drawn + 2))) :
    (answer = .ok outcome ↔
      ¬ (inMemory.after operations).store.Uses asked.runId (asked.eventId ++ "_resume") ∧
      ¬ (inMemory.after operations).store.Uses asked.runId (asked.eventId ++ "_complete")) ∧
    (answer = .ok outcome →
      outcome.followUpIds = [asked.eventId ++ "_resume", asked.eventId ++ "_complete"] ∧
      outcome.transition = "paused->completed" ∧
      RunState.ofRecords (next.store.readOrder asked.runId) = .ok ⟨.completed, none⟩) ∧
    (answer ≠ .ok outcome → ∃ id,
      answer = .error (.followUpFailed outcome (.store (.duplicateEvent id asked.runId))) ∧
      outcome.transition = "paused->stopped" ∧
      RunState.ofRecords (next.store.readOrder asked.runId) = .ok ⟨.stopped, none⟩ ∧
      ((inMemory.after operations).store.Uses asked.runId (asked.eventId ++ "_resume") ∧
          id = asked.eventId ++ "_resume" ∧ outcome.followUpIds = [] ∨
        ¬ (inMemory.after operations).store.Uses asked.runId (asked.eventId ++ "_resume") ∧
          id = asked.eventId ++ "_complete" ∧
          outcome.followUpIds = [asked.eventId ++ "_resume"] ∧
          next.store.Uses asked.runId (asked.eventId ++ "_resume"))) := by
  obtain ⟨hbefore, hends⟩ := endsTriage_of_resolve (sound_after operations)
    (faultless_after operations) happroved h houtcome hasked hnamed hworkflow hfresh hapart
  have htransition {after : RunStatus} (hafter : outcome.after = after) :
      outcome.transition = "paused->" ++ after.name := by
    rw [Outcome.transition, hbefore, hafter]
    rfl
  cases hends with
  | completed resumeNew completeNew ids after stands =>
    refine ⟨iff_of_true rfl ⟨resumeNew, completeNew⟩, fun _ => ⟨ids, htransition after, stands⟩, ?_⟩
    exact fun hfailed => absurd rfl hfailed
  | notResumed resumeUsed ids after stands =>
    refine ⟨iff_of_false nofun fun hnew => hnew.1 resumeUsed, nofun, ?_⟩
    exact fun _ => ⟨_, rfl, htransition after, stands, .inl ⟨resumeUsed, rfl, ids⟩⟩
  | notCompleted resumeNew completeUsed ids after listed stands =>
    refine ⟨iff_of_false nofun fun hnew => hnew.2 completeUsed, nofun, ?_⟩
    exact fun _ => ⟨_, rfl, htransition after, stands,
      .inr ⟨resumeNew, rfl, ids, listed⟩⟩

/-- Alone in its run, a triage request can be approved: an outcome comes back, and in the run no
identifier but that of the request is in use. -/
theorem exists_outcome_of_triageRequest :
    ∃ answer next outcome asked, resolve .standard stillSurroundings (.event "ask")
        ⟨.approved, "alice", none⟩ (inMemory.after [.submit triageRequest]) = (answer, next) ∧
      Outcome.ofAnswer? answer = some outcome ∧
      asked ∈ (inMemory.after [.submit triageRequest]).store.records ∧
      asked.eventId = outcome.targetEventId ∧ asked.runId = "run" ∧ asked.eventId = "ask" ∧
      asked.event.workflow? = some Triage.workflow ∧
      ∀ id, id ≠ "ask" → ¬ (inMemory.after [.submit triageRequest]).store.Uses asked.runId id := by
  have hs := sound_after [.submit triageRequest]
  have hfound : targetEvent (.event "ask") (inMemory.after [.submit triageRequest]) =
      (.ok "ask", inMemory.after [.submit triageRequest]) := Prod.ext (by decide +kernel) rfl
  obtain ⟨⟨asked, recorded, before⟩, submitted, hrecorded⟩ : ∃ found submitted,
      recordAnswer stillSurroundings "ask" ⟨.approved, "alice", none⟩
        (inMemory.after [.submit triageRequest]) = (.ok found, submitted) :=
    exists_of_isOk (by decide +kernel)
  obtain ⟨outcome, houtcome, hnames⟩ : ∃ outcome, Outcome.ofAnswer? (resolve .standard
      stillSurroundings (.event "ask") ⟨.approved, "alice", none⟩
        (inMemory.after [.submit triageRequest])).1 = some outcome ∧
      outcome.Names asked recorded :=
    exists_outcome_of_recorded hfound hrecorded
  obtain ⟨-, -, ⟨request, hwaits⟩, -⟩ := waitsFor_of_recordAnswer hs hrecorded
  obtain ⟨⟨log, hlog⟩, -⟩ := hs
  -- The request is the only record.
  have hall : ∀ x ∈ (inMemory.after [.submit triageRequest]).store.records,
      x.runId = "run" ∧ x.eventId = "ask" ∧ x.event.workflow? = some Triage.workflow := by
    decide +kernel
  have hasked := hlog.mem_records.mpr (hlog.mem_readOrder.mp hwaits.mem).1
  obtain ⟨hrun, hid, hworkflow⟩ := hall asked hasked
  refine ⟨_, _, outcome, asked, rfl, houtcome, hasked, hnames.target.symm, hrun, hid, hworkflow, ?_⟩
  rintro id hne ⟨x, hx, rfl⟩
  exact hne (hall x (hlog.mem_records.mpr (hlog.mem_readOrder.mp hx).1)).2.1

/-- A triage request, alone in its run, is approved: both events follow and complete the run. -/
theorem triage_request_is_completed :
    ∃ outcome next, resolve .standard stillSurroundings (.event "ask")
        ⟨.approved, "alice", none⟩ (inMemory.after [.submit triageRequest]) =
          (.ok outcome, next) ∧
      outcome.followUpIds = ["ask_resume", "ask_complete"] ∧
      outcome.transition = "paused->completed" ∧
      RunState.ofRecords (next.store.readOrder "run") = .ok ⟨.completed, none⟩ := by
  obtain ⟨answer, next, outcome, asked, hresolve, houtcome, hasked, hnamed, hrun, hid, hworkflow,
    hunused⟩ := exists_outcome_of_triageRequest
  obtain ⟨hanswer, hcompleted, -⟩ := approved_triage_ends_its_run [.submit triageRequest]
    stillSurroundings (.event "ask") ⟨.approved, "alice", none⟩ answer next outcome asked rfl
    hresolve houtcome hasked hnamed hworkflow (hunused _ (by decide)) (hid ▸ by decide)
  rw [hid] at hanswer hcompleted
  obtain rfl := hanswer.mpr ⟨hunused _ (by decide), hunused _ (by decide)⟩
  obtain ⟨hids, htransition, hstate⟩ := hcompleted rfl
  exact ⟨outcome, next, hresolve, hids, htransition, hrun ▸ hstate⟩

end Ledger

end RunLedger
