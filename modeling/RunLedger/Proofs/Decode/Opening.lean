/-
  Proofs/Decode/Opening.lean --- what stops the opening of a record.

  WHAT THIS FILE IS FOR.  A value opens as a record, or one thing stops it: it is no
  record at all, a key is unknown or stands there twice, a field that must be there
  is not, or the value of a field is not what it should be.  Of a record that has
  been opened every field can be picked, so decoding it fails in no other way.
-/
import RunLedger.Proofs.Decode.Record

set_option autoImplicit false

namespace RunLedger.Decode

open RunLedger.Json (Draft Closing)

theorem exists_ok_bind {ε α β : Type} {x : Except ε α} {f : α → Except ε β}
    (hx : ∃ a, x = .ok a) (hf : ∀ a, ∃ b, f a = .ok b) : ∃ b, (x >>= f) = .ok b := by
  obtain ⟨a, rfl⟩ := hx
  exact hf a

/-! ## Opening -/

theorem Slot.check_of_eq_error {α : Type} {decode : Decoder α} {draft : Draft} {fault : Fault}
    {name : String} {presence : Presence}
    (h : (Slot.of name presence decode).check draft = .error fault) :
    decode draft = .error fault :=
  map_eq_error_iff.mp h

namespace Form

variable {form : Form} {v : Json} {fault : Fault}

/-- The value `w` stands for the field in the record `v`: as a member with its name, or in its
place in a list. -/
def HasField (form : Form) (v : Json) (name : String) (w : Json) : Prop :=
  match v with
  | .object members => (name, w) ∈ members
  | .list values => (name, w) ∈ form.names.zip values
  | _ => False

/-- What stops the opening of a value as a record. -/
inductive Stops (form : Form) (v : Json) : Fault → Prop where
  /-- the value is neither an object nor a list -/
  | noRecord (found : Json.Found) : Stops form v (.wrongType found form.title)
  /-- a key of the object is no field -/
  | unknown {members : List (String × Json)} {key : String} (hv : v = .object members)
    (hkey : key ∈ members.map Prod.fst) (hunknown : key ∉ form.names) :
    Stops form v (.unknownField key form.names)
  /-- a key of the object stands there twice -/
  | repeated {name : String} (hname : name ∈ form.names) : Stops form v (.duplicateField name)
  /-- a field that an object must have is no key -/
  | missing {members : List (String × Json)} {slot : Slot} (hv : v = .object members)
    (hslot : slot ∈ form.slots) (hrequired : slot.presence = .required)
    (hmissing : slot.name ∉ members.map Prod.fst) : Stops form v (.missingField slot.name)
  /-- a field is not what it should be -/
  | field {slot : Slot} {w : Json} {fault : Fault} (hslot : slot ∈ form.slots)
    (hfield : form.HasField v slot.name w) (hcheck : slot.check w.toDraft = .error fault) :
    Stops form v fault
  /-- the list ends before a field that it must have -/
  | tooShort (number : Nat) : Stops form v (.tooFewItems number form.title form.slots.length)
  /-- the list goes on behind the last field -/
  | tooLong (count : Nat) : Stops form v (.tooManyItems count)

theorem mem_of_slot? {name : String} {slot : Slot} (h : form.slot? name = some slot) :
    slot ∈ form.slots ∧ slot.name = name :=
  ⟨List.mem_of_find?_eq_some h, by simpa using List.find?_some h⟩

theorem not_mem_names_of_slot? {name : String} (h : form.slot? name = none) :
    name ∉ form.names := by
  intro hmem
  obtain ⟨slot, hslot, rfl⟩ := List.mem_map.mp hmem
  simpa using List.find?_eq_none.mp h slot hslot

/-- What stops the checks of members. -/
theorem checkMembers_eq_error {members : List (String × Draft)} {seen : List String}
    (h : form.checkMembers seen members = .error fault) :
    ∃ m ∈ members, (form.slot? m.1 = none ∧ fault = .unknownField m.1 form.names) ∨
      ∃ slot, form.slot? m.1 = some slot ∧
        (fault = .duplicateField m.1 ∨ slot.check m.2 = .error fault) := by
  induction members generalizing seen with
  | nil => cases h
  | cons m rest ih =>
    unfold checkMembers at h
    split at h
    · rename_i hnone
      split at h
      · exact ⟨m, List.mem_cons_self, .inl ⟨hnone, (Except.error.inj h).symm⟩⟩
      · obtain ⟨m', hm', hcause⟩ := ih h
        exact ⟨m', List.mem_cons_of_mem m hm', hcause⟩
    · rename_i slot hslot
      split at h
      · exact ⟨m, List.mem_cons_self, .inr ⟨slot, hslot, .inl (Except.error.inj h).symm⟩⟩
      · split at h
        · rename_i hcheck
          refine ⟨m, List.mem_cons_self, .inr ⟨slot, hslot, .inr ?_⟩⟩
          rw [hcheck, Except.error.inj h]
        · obtain ⟨m', hm', hcause⟩ := ih h
          exact ⟨m', List.mem_cons_of_mem m hm', hcause⟩

/-- What stops the opening of the items of a list. -/
theorem openItems_eq_error {count number : Nat} {slots : List Slot} {drafts : List Draft}
    (h : form.openItems .value count .closed number slots drafts = .error fault) :
    fault = .tooManyItems count ∨
      (∃ number, fault = .tooFewItems number form.title form.slots.length) ∨
      ∃ p ∈ slots.zip drafts, p.1.check p.2 = .error fault := by
  induction slots generalizing number drafts with
  | nil =>
    cases drafts with
    | nil => cases h
    | cons draft rest => exact .inl (Except.error.inj h).symm
  | cons slot slots ih =>
    cases drafts with
    | nil =>
      have hend : (if slot.presence = .defaulted then
          form.openItems .value count .closed (number + 1) slots []
        else .error (.tooFewItems number form.title form.slots.length)) = .error fault := h
      split at hend
      · rcases ih hend with hlong | hshort | ⟨p, hp, -⟩
        · exact .inl hlong
        · exact .inr (.inl hshort)
        · rw [List.zip_nil_right] at hp
          cases hp
      · exact .inr (.inl ⟨number, (Except.error.inj hend).symm⟩)
    | cons draft rest =>
      rw [openItems] at h
      split at h
      · rename_i other hcheck
        refine .inr (.inr ⟨(slot, draft), List.mem_cons_self, ?_⟩)
        exact hcheck.trans (congrArg _ (Except.error.inj h))
      · rcases ih (map_eq_error_iff.mp h) with hlong | hshort | ⟨p, hp, herror⟩
        · exact .inl hlong
        · exact .inr (.inl hshort)
        · exact .inr (.inr ⟨p, List.mem_cons_of_mem _ hp, herror⟩)

theorem missing?_eq_some {drafts : List (String × Draft)} {slot : Slot}
    (h : form.missing? drafts = some slot) :
    slot ∈ form.slots ∧ slot.presence = .required ∧ slot.name ∉ drafts.map Prod.fst := by
  have hfound := List.find?_some h
  simp only [Bool.and_eq_true, beq_iff_eq, Option.isNone_iff_eq_none, lookup_eq_none_iff] at hfound
  exact ⟨List.mem_of_find?_eq_some h, hfound⟩

theorem mem_of_missing?_eq_none {drafts : List (String × Draft)} (h : form.missing? drafts = none)
    {slot : Slot} (hslot : slot ∈ form.slots) (hrequired : slot.presence = .required) :
    slot.name ∈ drafts.map Prod.fst := by
  have hnone := List.find?_eq_none.mp h slot hslot
  simp only [Bool.and_eq_true, beq_iff_eq, Option.isNone_iff_eq_none, lookup_eq_none_iff,
    hrequired, true_and, not_not] at hnone
  exact hnone

/-- What stops the opening of an object whose members have these drafts, in some order. -/
theorem stops_of_openObject {members : List (String × Json)} {drafts : List (String × Draft)}
    (hdrafts : drafts.Perm (members.map fun m => (m.1, m.2.toDraft)))
    (h : form.openObject drafts .closed = .error fault) : form.Stops (.object members) fault := by
  have hmem : ∀ m ∈ drafts, ∃ w, (m.1, w) ∈ members ∧ w.toDraft = m.2 := by
    intro m hm
    obtain ⟨⟨key, w⟩, hw, rfl⟩ := List.mem_map.mp (hdrafts.mem_iff.mp hm)
    exact ⟨w, hw, rfl⟩
  cases hcheck : form.checkMembers [] drafts with
  | error other =>
    rw [openObject, hcheck] at h
    obtain rfl := Except.error.inj h
    obtain ⟨m, hm, ⟨hnone, rfl⟩ | ⟨slot, hslot, hcause⟩⟩ := checkMembers_eq_error hcheck
    · obtain ⟨w, hw, -⟩ := hmem m hm
      exact .unknown rfl (List.mem_map_of_mem hw) (not_mem_names_of_slot? hnone)
    · obtain ⟨hslots, hname⟩ := mem_of_slot? hslot
      rcases hcause with rfl | hcause
      · exact .repeated (hname ▸ List.mem_map_of_mem hslots)
      · obtain ⟨w, hw, hdraft⟩ := hmem m hm
        rw [← hdraft] at hcause
        rw [← hname] at hw
        exact .field hslots hw hcause
  | ok _ =>
    rw [openObject, hcheck] at h
    cases hslot : form.missing? drafts with
    | none =>
      rw [hslot] at h
      cases h
    | some slot =>
      rw [hslot] at h
      have hfault : Fault.missingField slot.name = fault := Except.error.inj h
      obtain ⟨hslots, hrequired, hmissing⟩ := missing?_eq_some hslot
      rw [← hfault]
      refine .missing rfl hslots hrequired fun hkey => hmissing ?_
      obtain ⟨⟨key, w⟩, hw, hname⟩ := List.mem_map.mp hkey
      have hdraft : (key, w.toDraft) ∈ drafts :=
        hdrafts.mem_iff.mpr (List.mem_map_of_mem (f := fun m => (m.1, m.2.toDraft)) hw)
      exact List.mem_map.mpr ⟨_, hdraft, hname⟩

/-- What stops the opening of a value. -/
theorem stops_of_openDraft (h : form.openDraft .value v.toDraft = .error fault) :
    form.Stops v fault := by
  cases v with
  | object members =>
    obtain ⟨drafts, hperm, hopen⟩ := openDraft_object form .value members
    rw [hopen] at h
    exact stops_of_openObject hperm h
  | list values =>
    rw [Json.toDraft_list] at h
    rcases openItems_eq_error h with rfl | ⟨number, rfl⟩ | ⟨⟨slot, draft⟩, hp, hcheck⟩
    · exact .tooLong _
    · exact .tooShort number
    · rw [List.zip_map_right] at hp
      obtain ⟨⟨slot', w⟩, hw, heq⟩ := List.mem_map.mp hp
      obtain ⟨rfl, rfl⟩ := Prod.mk.inj heq
      refine .field (List.of_mem_zip hw).1 ?_ hcheck
      show (slot'.name, w) ∈ (form.slots.map Slot.name).zip values
      rw [List.zip_map_left]
      exact List.mem_map_of_mem (f := Prod.map Slot.name _) hw
  | null => exact Except.error.inj h ▸ .noRecord .null
  | bool b => exact Except.error.inj h ▸ .noRecord (.bool b)
  | number n => exact Except.error.inj h ▸ .noRecord (.number n)
  | text s => exact Except.error.inj h ▸ .noRecord (.text s)

/-! ## Records that open -/

/-- The fields of a record that has been opened: what is there has passed its check, and what must
be there is. -/
structure Opens (form : Form) (fields : Fields) : Prop where
  checked : ∀ m ∈ fields, ∀ slot ∈ form.slots, slot.name = m.1 → slot.check m.2 = .ok ()
  complete : ∀ slot ∈ form.slots, slot.presence = .required → slot.name ∈ fields.map Prod.fst

theorem opens_of_openItems {origin : Origin} {count number : Nat} {closing : Closing}
    {slots : List Slot} {drafts : List Draft} {fields : Fields}
    (h : form.openItems origin count closing number slots drafts = .ok fields) :
    (∀ m ∈ fields, ∃ slot ∈ slots, slot.name = m.1 ∧ slot.check m.2 = .ok ()) ∧
      ∀ slot ∈ slots, slot.presence = .required → slot.name ∈ fields.map Prod.fst := by
  -- On the fields that are still due.  A list that has ended goes on opening as long as these may be
  -- left out, so none of them is one that must be there.
  induction slots generalizing number drafts fields with
  | nil =>
    obtain ⟨-, -, hfields⟩ := bind_eq_ok_iff.mp h
    obtain rfl := Except.ok.inj hfields
    exact ⟨(fun m hm => nomatch hm), fun slot hslot => nomatch hslot⟩
  | cons slot slots ih =>
    cases drafts with
    | nil =>
      rw [openItems] at h
      split at h
      · cases h
      · split at h
        · rename_i hdefaulted
          obtain ⟨hchecked, hcomplete⟩ := ih h
          refine ⟨fun m hm => ?_, fun slot' hslot' hrequired => ?_⟩
          · obtain ⟨slot', hslot', hcause⟩ := hchecked m hm
            exact ⟨slot', List.mem_cons_of_mem slot hslot', hcause⟩
          · rcases List.mem_cons.mp hslot' with rfl | hslot'
            · rw [hdefaulted] at hrequired
              cases hrequired
            · exact hcomplete slot' hslot' hrequired
        · cases h
    | cons draft rest =>
      rw [openItems] at h
      split at h
      · cases h
      · rename_i hcheck
        obtain ⟨others, hrest, rfl⟩ := map_eq_ok_iff.mp h
        obtain ⟨hchecked, hcomplete⟩ := ih hrest
        refine ⟨fun m hm => ?_, fun slot' hslot' hrequired => ?_⟩
        · rcases List.mem_cons.mp hm with rfl | hm
          · exact ⟨slot, List.mem_cons_self, rfl, hcheck⟩
          · obtain ⟨slot', hslot', hcause⟩ := hchecked m hm
            exact ⟨slot', List.mem_cons_of_mem slot hslot', hcause⟩
        · rcases List.mem_cons.mp hslot' with rfl | hslot'
          · exact List.mem_cons_self
          · exact List.mem_cons_of_mem _ (hcomplete slot' hslot' hrequired)

theorem eq_of_name (hnames : form.names.Nodup) {a b : Slot} (ha : a ∈ form.slots)
    (hb : b ∈ form.slots) (hname : a.name = b.name) : a = b := by
  have hfound := slot?_eq_some hnames ha
  rw [hname, slot?_eq_some hnames hb] at hfound
  exact (Option.some.inj hfound).symm

theorem opens_of_openObject (hnames : form.names.Nodup) {members : List (String × Draft)}
    {closing : Closing} {fields : Fields} (h : form.openObject members closing = .ok fields) :
    form.Opens fields := by
  obtain ⟨-, -, hrest⟩ := bind_eq_ok_iff.mp h
  obtain ⟨-, -, hfound⟩ := bind_eq_ok_iff.mp hrest
  split at hfound
  · cases hfound
  · rename_i hmissing
    obtain rfl := Except.ok.inj hfound
    refine ⟨fun m hm slot hslot hname => ?_, fun slot hslot hrequired => ?_⟩
    · exact check_of_openObject h hm (hname ▸ slot?_eq_some hnames hslot)
    · exact mem_of_missing?_eq_none hmissing hslot hrequired

theorem opens_of_openDraft (hnames : form.names.Nodup) {origin : Origin} {draft : Draft}
    {fields : Fields} (h : form.openDraft origin draft = .ok fields) : form.Opens fields := by
  unfold openDraft at h
  split at h
  · exact opens_of_openObject hnames h
  · obtain ⟨hchecked, hcomplete⟩ := opens_of_openItems h
    refine ⟨fun m hm slot hslot hname => ?_, hcomplete⟩
    obtain ⟨slot', hslot', hname', hcheck⟩ := hchecked m hm
    rwa [eq_of_name hnames hslot hslot' (hname.trans hname'.symm)]
  · cases h

namespace Opens

variable {α : Type} {fields : Fields} {name : String} {decode : Decoder α} {presence : Presence}

theorem decode_of_lookup (h : form.Opens fields) (hslot : .of name presence decode ∈ form.slots)
    {draft : Draft} (hfound : fields.lookup name = some draft) : ∃ a, decode draft = .ok a := by
  obtain ⟨before, behind, hfields, -⟩ := List.lookup_eq_some_iff.mp hfound
  have hmem : (name, draft) ∈ fields := by simp [hfields]
  exact Slot.exists_of_check (h.checked _ hmem _ hslot rfl)

/-- A field that must be there can be picked. -/
theorem exists_get (h : form.Opens fields) (hslot : .of name .required decode ∈ form.slots) :
    ∃ a, fields.get name decode = .ok a := by
  unfold Fields.get
  split
  · rename_i draft hfound
    exact h.decode_of_lookup hslot hfound
  · rename_i hnone
    exact absurd (h.complete _ hslot rfl) (lookup_eq_none_iff.mp hnone)

/-- A field that may be left out can be picked or is left out. -/
theorem exists_getD (h : form.Opens fields) (hslot : .of name .defaulted decode ∈ form.slots)
    (default : α) : ∃ a, fields.getD name decode default = .ok a := by
  unfold Fields.getD
  split
  · rename_i draft hfound
    exact h.decode_of_lookup hslot hfound
  · exact ⟨default, rfl⟩

end Opens

/-- A record whose fields can all be picked is decoded, unless its opening fails. -/
theorem openDraft_of_bind {α : Type} (hnames : form.names.Nodup) {origin : Origin} {draft : Draft}
    {pick : Fields → Except Fault α}
    (hpick : ∀ fields, form.Opens fields → ∃ a, pick fields = .ok a)
    (h : (form.openDraft origin draft >>= pick) = .error fault) :
    form.openDraft origin draft = .error fault := by
  rcases bind_eq_error_iff.mp h with hopen | ⟨fields, hopen, hfields⟩
  · exact hopen
  · obtain ⟨a, ha⟩ := hpick fields (opens_of_openDraft hnames hopen)
    rw [ha] at hfields
    cases hfields

end Form

end RunLedger.Decode
