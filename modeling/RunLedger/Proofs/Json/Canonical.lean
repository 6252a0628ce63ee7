/-
  Proofs/Json/Canonical.lean --- a canonical text writes one value.

  WHAT THIS FILE IS FOR.  Digests are taken of canonical text, so what a digest
  binds is what the text tells.  It tells the value up to the order of the members
  of objects, which is what a draft keeps: values with one canonical text have one
  draft.  The texts of values are told apart inside a longer text as well, because
  what follows a value there is a comma or a closing bracket.
-/
import Mathlib.Data.List.Basic
import RunLedger.Json.Canonical
import RunLedger.Proofs.Json.Number
import RunLedger.Proofs.Json.Text

set_option autoImplicit false

namespace RunLedger.Json

open RunLedger.Text (quote)

/-! ## Values by their parts -/

/-- What holds of a value when it holds of its parts holds of every value. -/
@[elab_as_elim]
theorem induct {P : Json → Prop} (null : P .null) (bool : ∀ b, P (.bool b))
    (number : ∀ n, P (.number n)) (text : ∀ s, P (.text s))
    (list : ∀ items, (∀ v ∈ items, P v) → P (.list items))
    (object : ∀ members, (∀ m ∈ members, P m.2) → P (.object members)) (v : Json) : P v := by
  refine @Json.rec P (fun items => ∀ v ∈ items, P v) (fun members => ∀ m ∈ members, P m.2)
    (fun m => P m.2) null bool number text list object ?_ ?_ ?_ ?_ ?_ v
  · simp
  · intro item rest hitem hrest v hv
    rcases List.mem_cons.mp hv with rfl | hv
    · exact hitem
    · exact hrest v hv
  · simp
  · intro m rest hm hrest m' hm'
    rcases List.mem_cons.mp hm' with rfl | hm'
    · exact hm
    · exact hrest m' hm'
  · exact fun _ _ h => h

theorem canonicalItems_eq_map (items : List Json) :
    canonicalItems items = items.map canonicalChars := by
  induction items with
  | nil => rfl
  | cons item rest ih => simp [canonicalItems, ih]

theorem toDraftItems_eq_map (items : List Json) : toDraftItems items = items.map toDraft := by
  induction items with
  | nil => rfl
  | cons item rest ih => simp [toDraftItems, ih]

theorem canonicalMembers_eq_map (members : List (String × Json)) :
    canonicalMembers members = members.map fun m => (m.1, canonicalChars m.2) := by
  induction members with
  | nil => rfl
  | cons m rest ih => simp [canonicalMembers, ih]

theorem toDraftMembers_eq_map (members : List (String × Json)) :
    toDraftMembers members = members.map fun m => (m.1, toDraft m.2) := by
  induction members with
  | nil => rfl
  | cons m rest ih => simp [toDraftMembers, ih]

/-- Members are put in key order by their keys only. -/
theorem map_mergeSort_keyLe {α β : Type} (f : α → β) (members : List (String × α)) :
    (members.map fun m => (m.1, f m.2)).mergeSort keyLe =
      (members.mergeSort keyLe).map fun m => (m.1, f m.2) := by
  refine (List.map_mergeSort ?_).symm
  exact fun _ _ _ _ => rfl

/-- The canonical text of a member. -/
def memberText (m : String × Json) : List Char := memberChars (m.1, canonicalChars m.2)

theorem canonicalChars_list (items : List Json) :
    canonicalChars (.list items) = '[' :: commaJoin (items.map canonicalChars) ++ [']'] := by
  rw [canonicalChars, canonicalItems_eq_map]

/-- The members of an object are written in key order. -/
theorem canonicalChars_object (members : List (String × Json)) :
    canonicalChars (.object members) =
      '\x7b' :: commaJoin ((members.mergeSort keyLe).map memberText) ++ ['\x7d'] := by
  rw [canonicalChars, canonicalMembers_eq_map, map_mergeSort_keyLe, List.map_map]
  rfl

theorem toDraft_list (items : List Json) :
    toDraft (.list items) = .list (items.map toDraft) .closed := by
  rw [toDraft, toDraftItems_eq_map]

theorem toDraft_object (members : List (String × Json)) :
    toDraft (.object members) =
      .object ((members.mergeSort keyLe).map fun m => (m.1, toDraft m.2)) .closed := by
  rw [toDraft, toDraftMembers_eq_map, map_mergeSort_keyLe]

/-! ## Where a value ends -/

/-- The characters that may follow a value. -/
def isStop (c : Char) : Bool := c == ',' || c == ']' || c == '\x7d'

/-- A text that may follow a value. -/
def Stops (rest : List Char) : Prop := ∀ c ∈ rest.head?, isStop c = true

theorem stops_nil : Stops [] := by simp [Stops]

theorem stops_cons {c : Char} {rest : List Char} (hc : isStop c = true) : Stops (c :: rest) := by
  simpa [Stops] using hc

theorem isNumberChar_eq_false_of_isStop {c : Char} (h : isStop c = true) :
    isNumberChar c = false := by
  simp only [isStop, Bool.or_eq_true, beq_iff_eq] at h
  rcases h with (rfl | rfl) | rfl <;> decide

/-- The text of a number ends where something else than a number character follows. -/
theorem number_append_inj {m n : Number} {rest rest' : List Char} (hrest : Stops rest)
    (hrest' : Stops rest') (h : m.chars ++ rest = n.chars ++ rest') : m = n ∧ rest = rest' := by
  have hcut (n : Number) {rest : List Char} (hrest : Stops rest) :
      (n.chars ++ rest).takeWhile isNumberChar = n.chars := by
    rw [List.takeWhile_append_of_pos fun c hc => isNumberChar_of_mem c hc]
    cases rest with
    | nil => simp
    | cons c rest =>
      have hc : isNumberChar c = false :=
        isNumberChar_eq_false_of_isStop (hrest c (by simp))
      simp [hc]
  have hchars : m.chars = n.chars := by rw [← hcut m hrest, h, hcut n hrest']
  refine ⟨chars_injective hchars, ?_⟩
  rw [hchars] at h
  exact List.append_cancel_left h

/-- The first character of a value, a zero for all numbers. -/
def lead : Json → Char
  | .null => 'n'
  | .bool true => 't'
  | .bool false => 'f'
  | .number _ => '0'
  | .text _ => '"'
  | .list _ => '['
  | .object _ => '\x7b'

/-- A character as the first of a value. -/
def leadOf (c : Char) : Char := if isNumberChar c then '0' else c

/-- A value begins with its first character. -/
theorem exists_lead (v : Json) : ∃ c rest, canonicalChars v = c :: rest ∧ leadOf c = v.lead := by
  match v with
  | .null => exact ⟨_, _, rfl, rfl⟩
  | .bool true => exact ⟨_, _, rfl, rfl⟩
  | .bool false => exact ⟨_, _, rfl, rfl⟩
  | .text s => exact ⟨_, _, rfl, rfl⟩
  | .list items => exact ⟨_, _, rfl, rfl⟩
  | .object members => exact ⟨_, _, rfl, rfl⟩
  | .number n =>
    obtain ⟨c, rest, htext⟩ := List.exists_cons_of_ne_nil (chars_ne_nil n)
    have hc : isNumberChar c = true := isNumberChar_of_mem c (htext ▸ List.mem_cons_self)
    exact ⟨c, rest, htext, by simp [leadOf, hc, lead]⟩

theorem lead_eq_of_append {v w : Json} {rest rest' : List Char}
    (h : canonicalChars v ++ rest = canonicalChars w ++ rest') : v.lead = w.lead := by
  obtain ⟨c, vrest, hv, hlead⟩ := exists_lead v
  obtain ⟨d, wrest, hw, hlead'⟩ := exists_lead w
  rw [hv, hw] at h
  rw [← hlead, ← hlead', (List.cons.inj h).1]

/-- No value begins like what may follow one. -/
theorem exists_begin (v : Json) : ∃ c rest, canonicalChars v = c :: rest ∧ isStop c = false := by
  obtain ⟨c, rest, htext, hlead⟩ := exists_lead v
  refine ⟨c, rest, htext, ?_⟩
  by_contra hstop
  have hstop' : isStop c = true := by simpa using hstop
  rw [leadOf, isNumberChar_eq_false_of_isStop hstop'] at hlead
  simp only [Bool.false_eq_true, if_false] at hlead
  rw [hlead] at hstop'
  match v with
  | .null => cases hstop'
  | .bool true => cases hstop'
  | .bool false => cases hstop'
  | .number _ => cases hstop'
  | .text _ => cases hstop'
  | .list _ => cases hstop'
  | .object _ => cases hstop'

/-! ## One text, one value -/

/-- The text that `f` gives `x` tells what `g` gives it, and where the text ends. -/
def Tells {α β : Type} (f : α → List Char) (g : α → β) (x : α) : Prop :=
  ∀ y rest rest', Stops rest → Stops rest' → f x ++ rest = f y ++ rest' → g x = g y ∧ rest = rest'

/-- The text behind the first of some items: the others, if there are any, and then `rest`. -/
def behindFirst (texts : List (List Char)) (rest : List Char) : List Char :=
  match texts with
  | [] => rest
  | _ => ',' :: (commaJoin texts ++ rest)

theorem commaJoin_cons_append (text : List Char) (texts : List (List Char)) (rest : List Char) :
    commaJoin (text :: texts) ++ rest = text ++ behindFirst texts rest := by
  cases texts with
  | nil => rfl
  | cons second texts => simp [commaJoin, behindFirst]

theorem stops_behindFirst (texts : List (List Char)) {rest : List Char} (h : Stops rest) :
    Stops (behindFirst texts rest) := by
  cases texts with
  | nil => exact h
  | cons second texts => exact stops_cons rfl

/-- Items between commas are told one by one, up to the bracket behind them. -/
theorem commaJoin_append_inj {α β : Type} {f : α → List Char} {g : α → β} {close : Char}
    (hstop : isStop close = true) (hcomma : close ≠ ',')
    (hbegins : ∀ x, ∃ c rest, f x = c :: rest ∧ isStop c = false) {xs ys : List α}
    (htells : ∀ x ∈ xs, Tells f g x) {rest rest' : List Char}
    (h : commaJoin (xs.map f) ++ close :: rest = commaJoin (ys.map f) ++ close :: rest') :
    xs.map g = ys.map g ∧ rest = rest' := by
  have hnone (y : α) (ys : List α) (rest rest' : List Char) :
      close :: rest ≠ commaJoin ((y :: ys).map f) ++ close :: rest' := by
    intro heq
    obtain ⟨c, tail, hc, hgoes⟩ := hbegins y
    rw [List.map_cons, commaJoin_cons_append, hc, List.cons_append] at heq
    rw [← (List.cons.inj heq).1, hstop] at hgoes
    cases hgoes
  induction xs generalizing ys with
  | nil =>
    cases ys with
    | nil => exact ⟨rfl, (List.cons.inj h).2⟩
    | cons y ys => exact absurd h (hnone y ys rest rest')
  | cons x xs ih =>
    cases ys with
    | nil => exact absurd h.symm (hnone x xs rest' rest)
    | cons y ys =>
      rw [List.map_cons, List.map_cons, commaJoin_cons_append, commaJoin_cons_append] at h
      obtain ⟨hfirst, hbehind⟩ := htells x List.mem_cons_self y _ _
        (stops_behindFirst _ (stops_cons hstop)) (stops_behindFirst _ (stops_cons hstop)) h
      have hothers : xs.map g = ys.map g ∧ rest = rest' := by
        match xs, ys with
        | [], [] => exact ⟨rfl, (List.cons.inj hbehind).2⟩
        | [], _ :: _ => exact absurd (List.cons.inj hbehind).1 hcomma
        | _ :: _, [] => exact absurd (List.cons.inj hbehind).1.symm hcomma
        | _ :: _, _ :: _ =>
          exact ih (fun x' hx' => htells x' (List.mem_cons_of_mem x hx'))
            (List.cons.inj hbehind).2
      exact ⟨by rw [List.map_cons, List.map_cons, hfirst, hothers.1], hothers.2⟩

theorem tells_memberText {m : String × Json} (h : Tells canonicalChars toDraft m.2) :
    Tells memberText (fun m => (m.1, toDraft m.2)) m := by
  intro m' rest rest' hrest hrest' htext
  have hcons (m : String × Json) (rest : List Char) :
      memberText m ++ rest = quote m.1 ++ ':' :: (canonicalChars m.2 ++ rest) := by
    simp [memberText, memberChars]
  rw [hcons, hcons] at htext
  obtain ⟨hkey, hvalue⟩ := quote_append_inj htext
  obtain ⟨hdraft, hend⟩ := h m'.2 rest rest' hrest hrest' (List.cons.inj hvalue).2
  exact ⟨Prod.ext hkey hdraft, hend⟩

/-- Values with one canonical text have one draft; what follows the text does not matter, as long
as it may follow a value. -/
theorem tells_canonicalChars (v : Json) : Tells canonicalChars toDraft v := by
  induction v using induct with
  | null =>
    intro w rest rest' _ _ h
    have hlead := lead_eq_of_append h
    cases w with
    | null => exact ⟨rfl, List.append_cancel_left h⟩
    | bool b => cases b <;> simp [lead] at hlead
    | _ => simp [lead] at hlead
  | bool b =>
    intro w rest rest' _ _ h
    have hlead := lead_eq_of_append h
    cases w with
    | bool b' =>
      obtain rfl : b = b' := by cases b <;> cases b' <;> simp_all [lead]
      exact ⟨rfl, List.append_cancel_left h⟩
    | _ => cases b <;> simp [lead] at hlead
  | number m =>
    intro w rest rest' hrest hrest' h
    have hlead := lead_eq_of_append h
    cases w with
    | number n =>
      obtain ⟨rfl, hend⟩ := number_append_inj hrest hrest' h
      exact ⟨rfl, hend⟩
    | bool b => cases b <;> simp [lead] at hlead
    | _ => simp [lead] at hlead
  | text s =>
    intro w rest rest' _ _ h
    have hlead := lead_eq_of_append h
    cases w with
    | text t =>
      obtain ⟨rfl, hend⟩ := quote_append_inj h
      exact ⟨rfl, hend⟩
    | bool b => cases b <;> simp [lead] at hlead
    | _ => simp [lead] at hlead
  | list items ih =>
    intro w rest rest' _ _ h
    have hlead := lead_eq_of_append h
    cases w with
    | list items' =>
      rw [canonicalChars_list, canonicalChars_list] at h
      simp only [List.cons_append, List.append_assoc, List.nil_append] at h
      obtain ⟨hitems, hend⟩ := commaJoin_append_inj (by decide) (by decide) exists_begin ih
        (List.cons.inj h).2
      rw [toDraft_list, toDraft_list, hitems]
      exact ⟨rfl, hend⟩
    | bool b => cases b <;> simp [lead] at hlead
    | _ => simp [lead] at hlead
  | object members ih =>
    intro w rest rest' _ _ h
    have hlead := lead_eq_of_append h
    cases w with
    | object members' =>
      rw [canonicalChars_object, canonicalChars_object] at h
      simp only [List.cons_append, List.append_assoc, List.nil_append] at h
      have htells : ∀ m ∈ members.mergeSort keyLe,
          Tells memberText (fun m => (m.1, toDraft m.2)) m :=
        fun m hm => tells_memberText (ih m (List.mem_mergeSort.mp hm))
      obtain ⟨hmembers, hend⟩ := commaJoin_append_inj (by decide) (by decide)
        (fun _ => ⟨'"', _, rfl, rfl⟩) htells (List.cons.inj h).2
      rw [toDraft_object, toDraft_object, hmembers]
      exact ⟨rfl, hend⟩
    | bool b => cases b <;> simp [lead] at hlead
    | _ => simp [lead] at hlead

/-- Values with one canonical text have one draft. -/
theorem toDraft_eq_of_canonical {v w : Json} (h : v.canonical = w.canonical) :
    v.toDraft = w.toDraft := by
  have hchars : canonicalChars v ++ [] = canonicalChars w ++ [] := by
    rw [List.append_nil, List.append_nil]
    exact String.ofList_injective h
  exact (tells_canonicalChars v w [] [] stops_nil stops_nil hchars).1

end RunLedger.Json
