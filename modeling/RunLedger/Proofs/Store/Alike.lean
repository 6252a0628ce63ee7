/-
  Proofs/Store/Alike.lean --- stores that cannot be told apart.

  WHAT THIS FILE IS FOR.  Two stores may differ in what they remember and still answer
  every call alike, now and later.  For that it takes a relation between states that
  the answers do not tell apart and that no call leaves (`AnswersAlike`); everything
  that is made of calls inherits it.  For a durable store the relation is that the
  table is the same and the head of every run is, whether the handle remembers it or
  would read it from the table.
-/
import RunLedger.Proofs.Store.Call
import RunLedger.Proofs.Store.Refinement

set_option autoImplicit false

namespace RunLedger

/-! ## Computations -/

section

variable {s ε α β : Type} {same : s → s → Prop}

/-- In states that are alike the answer is the same, and the states afterwards are alike. -/
def AnswersAlike (same : s → s → Prop) (x : ExceptT ε (StateM s) α) : Prop :=
  ∀ a b, same a b → (x b).1 = (x a).1 ∧ same (x a).2 (x b).2

namespace AnswersAlike

theorem pure (a : α) : AnswersAlike same (pure a : ExceptT ε (StateM s) α) :=
  fun _ _ h => ⟨rfl, h⟩

theorem throw (error : ε) : AnswersAlike same (throw error : ExceptT ε (StateM s) α) :=
  fun _ _ h => ⟨rfl, h⟩

theorem bind {x : ExceptT ε (StateM s) α} {f : α → ExceptT ε (StateM s) β}
    (hx : AnswersAlike same x) (hf : ∀ a, AnswersAlike same (f a)) :
    AnswersAlike same (x >>= f) := by
  intro a b h
  obtain ⟨hanswer, hafter⟩ := hx a b h
  rw [bind_apply, bind_apply]
  rcases hfirst : x a with ⟨answer, next⟩
  rcases hsecond : x b with ⟨answer', next'⟩
  rw [hfirst, hsecond] at hanswer hafter
  obtain rfl : answer' = answer := hanswer
  cases answer' with
  | error error => exact ⟨rfl, hafter⟩
  | ok value => exact hf value next next' hafter

end AnswersAlike

end

/-! ## Calls -/

section

variable {σ : Type} [EventStore σ] {same : σ → σ → Prop}

/-- Stores that are alike answer each call alike. -/
structure CallsAlike (σ : Type) [EventStore σ] (same : σ → σ → Prop) : Prop where
  append : ∀ event, AnswersAlike same (EventStore.append event : StoreM σ _)
  readRun : ∀ runId, AnswersAlike same (EventStore.readRun runId : StoreM σ _)
  readAll : AnswersAlike same (EventStore.readAll : StoreM σ _)
  readChain : ∀ runId, AnswersAlike same (EventStore.readChain runId : StoreM σ _)

namespace CallsAlike

variable (h : CallsAlike σ same)

include h

theorem checkRun (runId : String) : AnswersAlike same (checkRun runId : StoreM σ _) := by
  refine (h.readChain runId).bind fun records => ?_
  split
  · exact .throw _
  · exact .pure _

theorem checkRuns (runIds : List String) : AnswersAlike same (checkRuns runIds : StoreM σ _) := by
  induction runIds with
  | nil => exact .pure _
  | cons runId rest ih =>
    exact (h.checkRun runId).bind fun report => ih.bind fun reports => .pure _

theorem checkAllRuns : AnswersAlike same (checkAllRuns : StoreM σ _) :=
  h.readAll.bind fun _ => h.checkRuns _

/-- Stores that are alike, also when they are opened again, answer any calls alike. -/
theorem answers_eq {reopen : σ → σ} (hreopen : ∀ s t, same s t → same (reopen s) (reopen t))
    {s t : σ} (hsame : same s t) (calls : List StoreCall) :
    answers reopen t calls = answers reopen s calls := by
  induction calls generalizing s t with
  | nil => rfl
  | cons call rest ih =>
    obtain ⟨hanswer, hafter⟩ : (call.perform reopen t).1 = (call.perform reopen s).1 ∧
        same (call.perform reopen s).2 (call.perform reopen t).2 := by
      cases call with
      | append event =>
        obtain ⟨hanswer, hafter⟩ := h.append event s t hsame
        exact ⟨congrArg StoreAnswer.recorded hanswer, hafter⟩
      | readRun runId =>
        obtain ⟨hanswer, hafter⟩ := h.readRun runId s t hsame
        exact ⟨congrArg StoreAnswer.listed hanswer, hafter⟩
      | readAll =>
        obtain ⟨hanswer, hafter⟩ := h.readAll s t hsame
        exact ⟨congrArg StoreAnswer.listed hanswer, hafter⟩
      | readChain runId =>
        obtain ⟨hanswer, hafter⟩ := h.readChain runId s t hsame
        exact ⟨congrArg StoreAnswer.listed hanswer, hafter⟩
      | reopen => exact ⟨rfl, hreopen s t hsame⟩
    rw [answers, answers, hanswer, ih hafter]

end CallsAlike

end

/-! ## Heads of runs -/

theorem Handle.head_remember (handle : Handle) (table : Table) (runId : String) (head : RunTip)
    (key : String) :
    (handle.remember runId head).head table key =
      if key = runId then .ok head else handle.head table key := by
  unfold Handle.head
  rw [Handle.lookup_remember]
  by_cases hkey : key = runId
  · rw [if_pos hkey, if_pos hkey]
  · rw [if_neg hkey, if_neg hkey]

/-- A row that is added tells nothing of the heads of other runs. -/
theorem Table.head_concat (table : Table) {row : Row} {key : String} (hkey : row.runId ≠ key)
    (placed : Int) : Table.head ⟨table.rows ++ [row], placed⟩ key = table.head key := by
  have hrows : Table.rowsOf ⟨table.rows ++ [row], placed⟩ key = table.rowsOf key := by
    rw [Table.rowsOf, Table.rowsOf, List.filter_append,
      List.filter_cons_of_neg (by simpa using hkey), List.filter_nil, List.append_nil]
  rw [Table.head, Table.head, hrows]

/-- A row that is added with its head remembered changes the head of its run only. -/
theorem Handle.head_remember_concat (handle : Handle) (table : Table) (row : Row) (placed : Int)
    (head : RunTip) (key : String) :
    (handle.remember row.runId head).head ⟨table.rows ++ [row], placed⟩ key =
      if key = row.runId then .ok head else handle.head table key := by
  rw [Handle.head_remember]
  split
  · rfl
  · rename_i hkey
    unfold Handle.head
    rw [table.head_concat (Ne.symm hkey)]

namespace DurableStore

variable {s t next : DurableStore} {event : Event}

/-- Two durable stores have the same table, and the head of every run is the same for both. -/
structure Alike (s t : DurableStore) : Prop where
  table : t.table = s.table
  heads : ∀ runId, t.handle.head s.table runId = s.handle.head s.table runId

theorem Alike.refl (s : DurableStore) : s.Alike s := ⟨rfl, fun _ => rfl⟩

theorem Alike.trans {u : DurableStore} (h : s.Alike t) (h' : t.Alike u) : s.Alike u := by
  refine ⟨h'.table.trans h.table, fun runId => ?_⟩
  have hheads := h'.heads runId
  rw [h.table] at hheads
  rw [hheads, h.heads]

instance : Std.Refl Alike := ⟨Alike.refl⟩

instance : IsTrans DurableStore Alike := ⟨fun _ _ _ => Alike.trans⟩

/-- Learning the head of a run changes no head. -/
theorem alike_learnHead (s : DurableStore) (runId : String) : s.Alike (s.learnHead runId).2 := by
  unfold learnHead
  split
  · exact .refl s
  · rename_i head hhead
    refine ⟨rfl, fun key => ?_⟩
    rw [Handle.head_remember]
    split
    · rename_i hkey
      rw [hkey, hhead]
    · rfl

/-- An event that is refused changes no head. -/
theorem alike_of_append_error {error : StoreError}
    (h : s.append event = (.error error, next)) : s.Alike next := by
  obtain ⟨answer, hlearn⟩ := append_eq_error h
  have halike := s.alike_learnHead event.normalized.runId
  rwa [hlearn] at halike

/-- How an event is answered, by the head of its run. -/
theorem append_apply (event : Event) (store : DurableStore) :
    store.append event =
      match store.handle.head store.table event.normalized.runId with
      | .error fault => (.error fault, store)
      | .ok head =>
        let known := store.handle.remember event.normalized.runId head
        match store.table.nextPlace? with
        | none => (.error (.table .full), ⟨store.table, known⟩)
        | some place =>
          if store.table.holds event.normalized.runId event.normalized.id then
            (.error (.duplicateEvent event.normalized.id event.normalized.runId),
              ⟨store.table, known⟩)
          else
            let r := head.recordNext place.toNat event.normalized
            (.ok r, ⟨⟨store.table.rows ++ [.ofRecord r], place⟩,
              store.handle.remember event.normalized.runId (head.after r)⟩) := by
  unfold append learnHead
  dsimp only
  cases store.handle.head store.table event.normalized.runId <;> rfl

/-- Stores that are alike stay so when they remember a head. -/
theorem Alike.remember (h : s.Alike t) (runId : String) (head : RunTip) :
    Alike ⟨s.table, s.handle.remember runId head⟩ ⟨s.table, t.handle.remember runId head⟩ := by
  refine ⟨rfl, fun key => ?_⟩
  rw [Handle.head_remember, Handle.head_remember, h.heads]

/-- Stores that are alike stay so when they add a row and remember its head. -/
theorem Alike.put (h : s.Alike t) (row : Row) (placed : Int) (head : RunTip) :
    Alike ⟨⟨s.table.rows ++ [row], placed⟩, s.handle.remember row.runId head⟩
      ⟨⟨s.table.rows ++ [row], placed⟩, t.handle.remember row.runId head⟩ := by
  refine ⟨rfl, fun key => ?_⟩
  rw [Handle.head_remember_concat, Handle.head_remember_concat, h.heads]

theorem Alike.append (h : s.Alike t) (event : Event) :
    (t.append event).1 = (s.append event).1 ∧ (s.append event).2.Alike (t.append event).2 := by
  rw [append_apply, append_apply, h.table, h.heads]
  cases s.handle.head s.table event.normalized.runId with
  | error fault => exact ⟨rfl, h⟩
  | ok head =>
    dsimp only
    cases s.table.nextPlace? with
    | none => exact ⟨rfl, h.remember _ _⟩
    | some place =>
      dsimp only
      split
      · exact ⟨rfl, h.remember _ _⟩
      · exact ⟨rfl, h.put (.ofRecord (head.recordNext place.toNat event.normalized)) place _⟩

/-- What only reads the table is answered alike. -/
theorem answersAlike_read {α : Type} (f : Table → Except StoreError α) :
    AnswersAlike Alike (fun store => (f store.table, store) : StoreM DurableStore α) :=
  fun _ _ h => ⟨congrArg f h.table, h⟩

/-- Durable stores that are alike answer each call alike. -/
theorem callsAlike : CallsAlike DurableStore Alike where
  append event _ _ h := h.append event
  readRun runId := answersAlike_read fun table => table.readRun runId
  readAll := answersAlike_read Table.readAll
  readChain runId := answersAlike_read fun table => table.readChain runId

theorem Alike.reopen (h : s.Alike t) : s.reopen.Alike t.reopen := by
  rw [DurableStore.reopen, DurableStore.reopen, h.table]
  exact .refl _

end DurableStore

end RunLedger
