/-
  Proofs/Decode/Record.lean --- opening a document that fills a form.

  WHAT THIS FILE IS FOR.  A document opens with a form if it has each field of the
  form once and the value of each passes its check; the order of its members does
  not matter.  Conversely, a document that opens has passed all checks.
-/
import Mathlib.Data.List.Nodup
import RunLedger.Decode.Record
import RunLedger.Proofs.Json.Canonical

set_option autoImplicit false

namespace RunLedger.Decode

open RunLedger.Json (Draft Closing)

theorem Slot.check_of {α : Type} {decode : Decoder α} {draft : Draft} {a : α} (name : String)
    (presence : Presence) (h : decode draft = .ok a) :
    (Slot.of name presence decode).check draft = .ok () := by
  simp [Slot.of, h, Except.map]

theorem Slot.exists_of_check {α : Type} {decode : Decoder α} {draft : Draft} {name : String}
    {presence : Presence} (h : (Slot.of name presence decode).check draft = .ok ()) :
    ∃ a, decode draft = .ok a := by
  cases hdecode : decode draft with
  | ok a => exact ⟨a, rfl⟩
  | error fault => simp [Slot.of, hdecode, Except.map] at h

theorem lookup_eq_some_of_mem {α : Type} {members : List (String × α)} {m : String × α}
    (hdistinct : (members.map Prod.fst).Nodup) (hm : m ∈ members) :
    members.lookup m.1 = some m.2 := by
  induction members with
  | nil => cases hm
  | cons first rest ih =>
    rw [List.map_cons, List.nodup_cons] at hdistinct
    rcases List.mem_cons.mp hm with rfl | hm
    · exact List.lookup_cons_self
    · have hne : m.1 ≠ first.1 := by
        intro heq
        exact hdistinct.1 (heq ▸ List.mem_map_of_mem hm)
      have hmiss : (m.1 == first.1) = false := by simp [hne]
      rw [List.lookup_cons, hmiss]
      exact ih hdistinct.2 hm

theorem ok_bind {ε α β : Type} (a : α) (f : α → Except ε β) : (Except.ok a >>= f) = f a := rfl

section

variable {ε α β : Type} {x : Except ε α} {e : ε} {b : β}

theorem bind_eq_ok_iff {f : α → Except ε β} :
    (x >>= f) = .ok b ↔ ∃ a, x = .ok a ∧ f a = .ok b := by
  cases x <;> simp [bind, Except.bind]

theorem bind_eq_error_iff {f : α → Except ε β} :
    (x >>= f) = .error e ↔ x = .error e ∨ ∃ a, x = .ok a ∧ f a = .error e := by
  cases x <;> simp [bind, Except.bind]

theorem map_eq_ok_iff {f : α → β} : x.map f = .ok b ↔ ∃ a, x = .ok a ∧ f a = b := by
  cases x <;> simp [Except.map]

theorem map_eq_error_iff {f : α → β} : x.map f = .error e ↔ x = .error e := by
  cases x <;> simp [Except.map]

end

theorem lookup_eq_none_iff {α : Type} {members : List (String × α)} {name : String} :
    members.lookup name = none ↔ name ∉ members.map Prod.fst := by
  rw [List.lookup_eq_none_iff]
  simp only [bne_iff_ne, ne_eq, List.mem_map, not_exists, not_and]
  exact forall₂_congr fun m _ => not_congr eq_comm

theorem Fields.get_eq {α : Type} {fields : Fields} {name : String} {decode : Decoder α}
    {draft : Draft} {a : α} (hfound : fields.lookup name = some draft)
    (hdecode : decode draft = .ok a) : fields.get name decode = .ok a := by
  rw [Fields.get, hfound]
  exact hdecode

/-- What is found of a field was decoded. -/
theorem Fields.exists_of_get {α : Type} {fields : Fields} {name : String} {decode : Decoder α}
    {a : α} (h : fields.get name decode = .ok a) : ∃ draft, decode draft = .ok a := by
  unfold get at h
  split at h
  · exact ⟨_, h⟩
  · cases h

/-- What is found of a field that may be left out was decoded, or is the default. -/
theorem Fields.exists_of_getD {α : Type} {fields : Fields} {name : String} {decode : Decoder α}
    {default a : α} (h : fields.getD name decode default = .ok a) :
    (∃ draft, decode draft = .ok a) ∨ a = default := by
  unfold getD at h
  split at h
  · exact .inl ⟨_, h⟩
  · exact .inr (Except.ok.inj h).symm

theorem Fields.getD_eq {α : Type} {fields : Fields} {name : String} {decode : Decoder α}
    {draft : Draft} {a : α} (default : α) (hfound : fields.lookup name = some draft)
    (hdecode : decode draft = .ok a) : fields.getD name decode default = .ok a := by
  rw [Fields.getD, hfound]
  exact hdecode

namespace Form

variable {form : Form} {members others : List (String × Draft)}

/-- The members are those of the form, each once, with values that pass their checks. -/
structure Fills (form : Form) (members : List (String × Draft)) : Prop where
  distinct : (members.map Prod.fst).Nodup
  checked : ∀ m ∈ members, ∃ slot, form.slot? m.1 = some slot ∧ slot.check m.2 = .ok ()
  complete : ∀ slot ∈ form.slots, slot.name ∈ members.map Prod.fst

theorem Fills.perm (h : form.Fills members) (hperm : members.Perm others) : form.Fills others where
  distinct := (hperm.map Prod.fst).nodup_iff.mp h.distinct
  checked m hm := h.checked m (hperm.mem_iff.mpr hm)
  complete slot hslot := (hperm.map Prod.fst).mem_iff.mp (h.complete slot hslot)

theorem slot?_eq_some (hnames : form.names.Nodup) {slot : Slot} (hslot : slot ∈ form.slots) :
    form.slot? slot.name = some slot := by
  unfold slot?
  unfold names at hnames
  generalize form.slots = slots at hnames hslot
  induction slots with
  | nil => cases hslot
  | cons first rest ih =>
    rw [List.map_cons, List.nodup_cons] at hnames
    rcases List.mem_cons.mp hslot with rfl | hslot
    · simp
    · have hne : (first.name == slot.name) = false := by
        rw [beq_eq_false_iff_ne]
        intro heq
        exact hnames.1 (heq ▸ List.mem_map_of_mem hslot)
      rw [List.find?_cons, hne]
      exact ih hnames.2 hslot

/-- Members in the order of the fields of a form fill it if each passes the check in its place. -/
theorem Fills.of_forall₂ (hnames : form.names.Nodup)
    (h : List.Forall₂ (fun slot m => slot.name = m.1 ∧ slot.check m.2 = .ok ())
      form.slots members) : form.Fills members := by
  have hkeys : members.map Prod.fst = form.names := by
    unfold names
    clear hnames
    generalize form.slots = slots at h
    induction h with
    | nil => rfl
    | cons hfirst _ ih => rw [List.map_cons, List.map_cons, ih, hfirst.1]
  refine ⟨hkeys ▸ hnames, fun m hm => ?_, fun slot hslot => ?_⟩
  · obtain ⟨slot, hslot, hname, hcheck⟩ : ∃ slot ∈ form.slots,
        slot.name = m.1 ∧ slot.check m.2 = .ok () := by
      clear hnames hkeys
      generalize form.slots = slots at h
      induction h with
      | nil => cases hm
      | cons hfirst _ ih =>
        rcases List.mem_cons.mp hm with rfl | hm
        · exact ⟨_, List.mem_cons_self, hfirst⟩
        · obtain ⟨slot, hslot, hcheck⟩ := ih hm
          exact ⟨slot, List.mem_cons_of_mem _ hslot, hcheck⟩
    exact ⟨slot, hname ▸ slot?_eq_some hnames hslot, hcheck⟩
  · rw [hkeys]
    exact List.mem_map_of_mem hslot

/-! ## Opening objects -/

theorem checkMembers_eq_ok {seen : List String} (hseen : ∀ m ∈ members, m.1 ∉ seen)
    (hdistinct : (members.map Prod.fst).Nodup)
    (hchecked : ∀ m ∈ members, ∃ slot, form.slot? m.1 = some slot ∧ slot.check m.2 = .ok ()) :
    form.checkMembers seen members = .ok () := by
  induction members generalizing seen with
  | nil => rfl
  | cons m rest ih =>
    obtain ⟨slot, hslot, hcheck⟩ := hchecked m List.mem_cons_self
    rw [List.map_cons, List.nodup_cons] at hdistinct
    have hnew : seen.contains m.1 = false := by simpa using hseen m List.mem_cons_self
    simp only [checkMembers, hslot, hnew, Bool.false_eq_true, if_false, hcheck]
    refine ih (fun m' hm' => ?_) hdistinct.2 fun m' hm' => hchecked m' (List.mem_cons_of_mem m hm')
    rw [List.mem_cons, not_or]
    refine ⟨fun heq => hdistinct.1 (heq ▸ List.mem_map_of_mem hm'), ?_⟩
    exact hseen m' (List.mem_cons_of_mem m hm')

/-- A member that has been passed over has passed its check. -/
theorem check_of_checkMembers {seen : List String}
    (h : form.checkMembers seen members = .ok ()) {m : String × Draft} (hm : m ∈ members)
    {slot : Slot} (hslot : form.slot? m.1 = some slot) : slot.check m.2 = .ok () := by
  induction members generalizing seen with
  | nil => cases hm
  | cons first rest ih =>
    unfold checkMembers at h
    split at h
    · rename_i hnone
      split at h
      · cases h
      · rcases List.mem_cons.mp hm with rfl | hm
        · rw [hslot] at hnone
          cases hnone
        · exact ih h hm
    · rename_i slot' hsome
      split at h
      · cases h
      · split at h
        · cases h
        · rename_i hcheck
          rcases List.mem_cons.mp hm with rfl | hm
          · obtain rfl := Option.some.inj (hslot.symm.trans hsome)
            exact hcheck
          · exact ih h hm

/-- An object with the fields of a form opens, and its fields are its members. -/
theorem openObject_eq_ok (h : form.Fills members) :
    form.openObject members .closed = .ok members := by
  have hmissing : form.missing? members = none := by
    refine List.find?_eq_none.mpr fun slot hslot => ?_
    obtain ⟨m, hm, hname⟩ := List.mem_map.mp (h.complete slot hslot)
    rw [← hname, lookup_eq_some_of_mem h.distinct hm]
    simp
  rw [openObject, checkMembers_eq_ok (by simp) h.distinct h.checked, hmissing]
  rfl

theorem check_of_openObject {closing : Closing} {fields : Fields}
    (h : form.openObject members closing = .ok fields) {m : String × Draft} (hm : m ∈ members)
    {slot : Slot} (hslot : form.slot? m.1 = some slot) : slot.check m.2 = .ok () := by
  cases hcheck : form.checkMembers [] members with
  | error fault =>
    rw [openObject, hcheck] at h
    cases h
  | ok _ => exact check_of_checkMembers hcheck hm hslot

/-! ## Opening values -/

variable {values : List (String × Json)}

/-- The draft of an object has the drafts of its members, in another order. -/
theorem openDraft_object (form : Form) (origin : Origin) (values : List (String × Json)) :
    ∃ members, members.Perm (values.map fun m => (m.1, m.2.toDraft)) ∧
      form.openDraft origin (Json.object values).toDraft = form.openObject members .closed := by
  refine ⟨(values.mergeSort Json.keyLe).map fun m => (m.1, m.2.toDraft),
    (List.mergeSort_perm values Json.keyLe).map _, ?_⟩
  rw [Json.toDraft_object]
  rfl

/-- An object that fills a form opens, and each of its members is found in it. -/
theorem exists_fields (h : form.Fills (values.map fun m => (m.1, m.2.toDraft)))
    (origin : Origin) :
    ∃ fields : Fields, form.openDraft origin (Json.object values).toDraft = .ok fields ∧
      ∀ m ∈ values, fields.lookup m.1 = some m.2.toDraft := by
  obtain ⟨members, hperm, hopen⟩ := openDraft_object form origin values
  have hfills := h.perm hperm.symm
  refine ⟨members, by rw [hopen, openObject_eq_ok hfills], fun m hm => ?_⟩
  exact lookup_eq_some_of_mem hfills.distinct
    (hperm.mem_iff.mpr (List.mem_map_of_mem (f := fun m => (m.1, m.2.toDraft)) hm))

/-- The members of an object that opens pass their checks. -/
theorem check_of_openDraft {origin : Origin} {fields : Fields}
    (h : form.openDraft origin (Json.object values).toDraft = .ok fields) {m : String × Json}
    (hm : m ∈ values) {slot : Slot} (hslot : form.slot? m.1 = some slot) :
    slot.check m.2.toDraft = .ok () := by
  obtain ⟨members, hperm, hopen⟩ := openDraft_object form origin values
  rw [hopen] at h
  have hmem : (m.1, m.2.toDraft) ∈ members :=
    hperm.mem_iff.mpr (List.mem_map_of_mem (f := fun m => (m.1, m.2.toDraft)) hm)
  exact check_of_openObject h hmem hslot

end Form

end RunLedger.Decode
