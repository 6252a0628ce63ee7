/-
  Proofs/Json/Reader.lean --- canonical text is read back.

  WHAT THIS FILE IS FOR.  The canonical text of a value, read as a text from end
  to end or in front of what may follow a value, gives the draft of the value:
  nothing is lost but the order of members.  Two things can stand in the way.  A
  binary64 number may be read as another one than was written: then this is the
  one number that is exchanged in what is read.  And reading stops at a nesting
  that writing does not know of, so the depth of the value is asked for as well.
-/
import RunLedger.Json.Reader
import RunLedger.Proofs.Json.Canonical

set_option autoImplicit false

namespace RunLedger.Json

open RunLedger.Text (digitValue? isDigit spanDigits quote escapeChars)

/-- The text of the number `n` is read as the number `m`. -/
def Number.IsReadAs (n m : Number) : Prop := parse? (String.ofList n.chars) = .ok (.number m)

/-- The text of the number is read back as that number. -/
def Number.ReadsBack (n : Number) : Prop := parse? (String.ofList n.chars) = .ok (.number n)

/-! ## Numbers in front of what may follow a value -/

theorem digitValue?_of_isStop {c : Char} (h : isStop c = true) : digitValue? c = none := by
  simp only [isStop, Bool.or_eq_true, beq_iff_eq] at h
  rcases h with (rfl | rfl) | rfl <;> decide

theorem Stops.cases {rest : List Char} (h : Stops rest) :
    rest = [] ∨ ∃ c tail, rest = c :: tail ∧ isStop c = true := by
  cases rest with
  | nil => exact .inl rfl
  | cons c tail => exact .inr ⟨c, tail, rfl, h c rfl⟩

section

variable {cs behind rest : List Char} {negative : Bool}

theorem spanDigits_append (cs : List Char) (hrest : Stops rest) :
    spanDigits (cs ++ rest) = ((spanDigits cs).1, (spanDigits cs).2 ++ rest) := by
  induction cs with
  | nil =>
    rcases hrest.cases with rfl | ⟨c, tail, rfl, hstop⟩
    · rfl
    · simp [spanDigits, digitValue?_of_isStop hstop]
  | cons c cs ih =>
    simp only [List.cons_append, spanDigits]
    cases digitValue? c with
    | none => rfl
    | some d => rw [ih]

theorem spanDigits_suffix (cs : List Char) : (spanDigits cs).2 <:+ cs := by
  induction cs with
  | nil => exact List.suffix_rfl
  | cons c cs ih =>
    simp only [spanDigits]
    cases digitValue? c with
    | none => exact List.suffix_rfl
    | some d => exact ih.trans (List.suffix_cons c cs)

/-- A part of a number that is read from a text is read alike when something follows that may
follow a value, and what is left of the text is its end. -/
structure ReadsAhead {α : Type} (read : List Char → Except SyntaxFault (α × List Char)) :
    Prop where
  ahead : ∀ {cs behind rest a}, read cs = .ok (a, behind) → Stops rest →
    read (cs ++ rest) = .ok (a, behind ++ rest)
  suffix : ∀ {cs behind a}, read cs = .ok (a, behind) → behind <:+ cs

namespace ReadsAhead

variable {α β : Type} {read : List Char → Except SyntaxFault (α × List Char)}

theorem pure (a : α) : ReadsAhead fun cs => .ok (a, cs) where
  ahead h _ := by
    obtain ⟨rfl, rfl⟩ := Prod.mk.inj (Except.ok.inj h)
    rfl
  suffix h := by
    obtain ⟨-, rfl⟩ := Prod.mk.inj (Except.ok.inj h)
    exact List.suffix_rfl

theorem throw (fault : SyntaxFault) :
    ReadsAhead fun _ => (.error fault : Except SyntaxFault (α × List Char)) where
  ahead h _ := by cases h
  suffix h := by cases h

theorem bind {next : α × List Char → Except SyntaxFault (β × List Char)}
    (hread : ReadsAhead read) (hnext : ∀ a, ReadsAhead fun cs => next (a, cs)) :
    ReadsAhead fun cs => read cs >>= next where
  ahead {cs behind rest b} h hrest := by
    rcases hfirst : read cs with fault | ⟨a, middle⟩
    · rw [hfirst] at h
      cases h
    · rw [hfirst] at h
      rw [hread.ahead hfirst hrest]
      exact (hnext a).ahead h hrest
  suffix {cs behind b} h := by
    rcases hfirst : read cs with fault | ⟨a, middle⟩
    · rw [hfirst] at h
      cases h
    · rw [hfirst] at h
      exact ((hnext a).suffix h).trans (hread.suffix hfirst)

/-- A part that some first characters tell from another one. -/
theorem of_first {other : List Char → Except SyntaxFault (α × List Char)}
    (hother : ReadsAhead other) (hnil : read [] = other [])
    (hcons : ∀ c, (∃ next, ReadsAhead next ∧ isStop c = false ∧ ∀ cs, read (c :: cs) = next cs) ∨
      ∀ cs, read (c :: cs) = other (c :: cs)) : ReadsAhead read where
  ahead {cs behind rest a} h hrest := by
    cases cs with
    | nil =>
      rw [hnil] at h
      rcases hrest.cases with rfl | ⟨c, tail, rfl, hstop⟩
      · exact hnil ▸ hother.ahead h hrest
      · rcases hcons c with ⟨next, -, hgoes, -⟩ | hread
        · rw [hstop] at hgoes
          cases hgoes
        · exact hread tail ▸ hother.ahead h hrest
    | cons c cs =>
      rcases hcons c with ⟨next, hnext, -, hread⟩ | hread
      · rw [hread] at h
        rw [List.cons_append, hread]
        exact hnext.ahead h hrest
      · rw [hread] at h
        rw [List.cons_append, hread]
        exact hother.ahead h hrest
  suffix {cs behind a} h := by
    cases cs with
    | nil => exact hother.suffix (hnil ▸ h)
    | cons c cs =>
      rcases hcons c with ⟨next, hnext, -, hread⟩ | hread
      · rw [hread] at h
        exact (hnext.suffix h).trans (List.suffix_cons c cs)
      · exact hother.suffix (hread cs ▸ h)

end ReadsAhead

theorem readsAhead_readWhole : ReadsAhead readWhole where
  ahead {cs behind rest a} h hrest := by
    cases cs with
    | nil => cases h
    | cons c cs =>
      have happend := spanDigits_append (c :: cs) hrest
      unfold readWhole at h ⊢
      simp only [List.cons_append] at happend ⊢
      rw [happend]
      rcases hspan : spanDigits (c :: cs) with ⟨digits, left⟩
      rw [hspan] at h
      simp only at h ⊢
      split at h <;> simp_all
  suffix {cs behind a} h := by
    have hsuffix := spanDigits_suffix cs
    unfold readWhole at h
    split at h
    · cases h
    · split at h <;> simp_all

theorem readsAhead_readDigits : ReadsAhead readDigits where
  ahead {cs behind rest a} h hrest := by
    unfold readDigits at h ⊢
    rw [spanDigits_append cs hrest]
    rcases hspan : spanDigits cs with ⟨digits, left⟩
    rw [hspan] at h
    simp only at h ⊢
    split at h <;> simp_all
  suffix {cs behind a} h := by
    have hsuffix := spanDigits_suffix cs
    unfold readDigits at h
    split at h <;> simp_all

theorem readsAhead_readFraction : ReadsAhead readFraction := by
  refine .of_first (.pure none) rfl fun c => ?_
  by_cases hc : c = '.'
  · subst hc
    exact .inl ⟨_, readsAhead_readDigits.bind fun digits => .pure (some digits), by decide,
      fun _ => rfl⟩
  · refine .inr fun cs => ?_
    unfold readFraction
    split
    · rename_i heq
      exact absurd (List.cons.inj heq).1 hc
    · rfl

/-- The digits of an exponent behind its sign. -/
def exponentDigits (negative : Bool) (cs : List Char) :
    Except SyntaxFault (Option Int × List Char) := do
  let (digits, rest) ← readDigits cs
  let size := Text.ofDigits digits
  return (some (if negative then -(size : Int) else size), rest)

/-- An exponent behind its letter. -/
def signedExponent (cs : List Char) : Except SyntaxFault (Option Int × List Char) :=
  match cs with
  | '+' :: cs => exponentDigits false cs
  | '-' :: cs => exponentDigits true cs
  | _ => exponentDigits false cs

theorem readsAhead_exponentDigits (negative : Bool) : ReadsAhead (exponentDigits negative) :=
  readsAhead_readDigits.bind fun digits =>
    .pure (some (if negative then -(Text.ofDigits digits : Int) else Text.ofDigits digits))

theorem readsAhead_signedExponent : ReadsAhead signedExponent := by
  refine .of_first (readsAhead_exponentDigits false) rfl fun c => ?_
  by_cases hplus : c = '+'
  · subst hplus
    exact .inl ⟨_, readsAhead_exponentDigits false, by decide, fun _ => rfl⟩
  · by_cases hminus : c = '-'
    · subst hminus
      exact .inl ⟨_, readsAhead_exponentDigits true, by decide, fun _ => rfl⟩
    · refine .inr fun cs => ?_
      unfold signedExponent
      split
      · rename_i heq
        exact absurd (List.cons.inj heq).1 hplus
      · rename_i heq
        exact absurd (List.cons.inj heq).1 hminus
      · rfl

theorem readsAhead_readExponent : ReadsAhead readExponent := by
  refine .of_first (.pure none) rfl fun c => ?_
  by_cases hc : c = 'e' ∨ c = 'E'
  · refine .inl ⟨signedExponent, readsAhead_signedExponent, ?_, fun cs => ?_⟩
    · rcases hc with rfl | rfl <;> decide
    · rcases hc with rfl | rfl <;> rfl
  · refine .inr fun cs => ?_
    unfold readExponent
    dsimp only
    split
    · rename_i heq
      exact absurd (.inl (List.cons.inj heq).1) hc
    · rename_i heq
      exact absurd (.inr (List.cons.inj heq).1) hc
    · rfl

theorem readsAhead_readNumber (negative : Bool) : ReadsAhead (readNumber negative) := by
  refine readsAhead_readWhole.bind fun whole => ?_
  refine readsAhead_readFraction.bind fun fraction => ?_
  refine readsAhead_readExponent.bind fun exponent => ?_
  dsimp only
  cases (NumberParts.mk whole fraction exponent).toNumber? negative with
  | none => exact .throw _
  | some n => exact .pure n

/-! ## Tokens -/

theorem isSpace_of_isNumberChar {c : Char} (h : isNumberChar c = true) : isSpace c = false := by
  by_contra hspace
  simp only [isSpace, Bool.not_eq_false, Bool.or_eq_true, beq_iff_eq] at hspace
  rcases hspace with ((rfl | rfl) | rfl) | rfl <;> cases h

theorem skipSpace_cons {c : Char} (h : isSpace c = false) (cs : List Char) :
    skipSpace (c :: cs) = c :: cs :=
  List.dropWhile_cons_of_neg (by simp [h])

/-- What begins neither with a blank nor with a bracket is a token. -/
theorem readValue_token {c : Char} (hspace : isSpace c = false) (hlist : c ≠ '[')
    (hobject : c ≠ '\x7b') (fuel depth : Nat) (cs : List Char) :
    readValue (fuel + 1) depth (c :: cs) = readToken (c :: cs) := by
  rw [readValue, skipSpace_cons hspace]
  split
  · rename_i heq
    exact absurd (List.cons.inj heq).1 hlist
  · rename_i heq
    exact absurd (List.cons.inj heq).1 hobject
  · rfl

theorem tokenResult_eq_ok_iff {α : Type} {opening : Opening}
    {found : Except SyntaxFault (α × List Char)} {f : α → Draft} {draft : Draft} :
    tokenResult opening (found.map fun p => (f p.1, p.2)) = (draft, .ok behind) ↔
      ∃ a, found = .ok (a, behind) ∧ f a = draft := by
  rcases found with fault | ⟨a, left⟩
  · simp [tokenResult, Except.map]
  · simp [tokenResult, Except.map]
    grind

/-- A token that begins like a number is one, or nothing. -/
theorem readToken_of_isNumberChar {c : Char} (hc : isNumberChar c = true) (cs : List Char) :
    readToken (c :: cs) =
      if c = '-' then
        tokenResult .other ((readNumber true cs).map fun p => (.number p.1, p.2))
      else if isDigit c then
        tokenResult .other ((readNumber false (c :: cs)).map fun p => (.number p.1, p.2))
      else tokenResult .other (.error .valueExpected) := by
  unfold readToken
  split
  · rename_i heq
    cases heq
  · rename_i heq
    obtain rfl := (List.cons.inj heq).1
    cases hc
  · rename_i heq
    obtain rfl := (List.cons.inj heq).1
    cases hc
  · rename_i heq
    obtain rfl := (List.cons.inj heq).1
    cases hc
  · rename_i heq
    obtain rfl := (List.cons.inj heq).1
    cases hc
  · rename_i heq
    obtain ⟨rfl, rfl⟩ := List.cons.inj heq
    rfl
  · rename_i hminus heq
    obtain ⟨rfl, rfl⟩ := List.cons.inj heq
    rw [if_neg hminus]

/-- A number that is read from end to end is read in front of what may follow a value, too. -/
theorem readToken_append {n : Number} {c : Char} (hc : isNumberChar c = true)
    (h : readToken (c :: cs) = (.number n, .ok [])) (hrest : Stops rest) :
    readToken (c :: cs ++ rest) = (.number n, .ok rest) := by
  rw [List.cons_append, readToken_of_isNumberChar hc]
  rw [readToken_of_isNumberChar hc] at h
  split
  · rename_i hminus
    rw [if_pos hminus] at h
    obtain ⟨m, hread, hm⟩ := tokenResult_eq_ok_iff.mp h
    exact tokenResult_eq_ok_iff.mpr ⟨m, (readsAhead_readNumber true).ahead hread hrest, hm⟩
  · rename_i hminus
    rw [if_neg hminus] at h
    split
    · rename_i hdigit
      rw [if_pos hdigit] at h
      obtain ⟨m, hread, hm⟩ := tokenResult_eq_ok_iff.mp h
      exact tokenResult_eq_ok_iff.mpr ⟨m, (readsAhead_readNumber false).ahead hread hrest, hm⟩
    · rename_i hdigit
      rw [if_neg hdigit] at h
      cases (Prod.mk.inj h).2

/-- What is left behind a number is the end of the text. -/
theorem readToken_suffix {draft : Draft} {c : Char} (hc : isNumberChar c = true)
    (h : readToken (c :: cs) = (draft, .ok behind)) : behind <:+ c :: cs := by
  rw [readToken_of_isNumberChar hc] at h
  split at h
  · obtain ⟨m, hread, -⟩ := tokenResult_eq_ok_iff.mp h
    exact ((readsAhead_readNumber true).suffix hread).trans (List.suffix_cons c cs)
  · split at h
    · obtain ⟨m, hread, -⟩ := tokenResult_eq_ok_iff.mp h
      exact (readsAhead_readNumber false).suffix hread
    · cases (Prod.mk.inj h).2

theorem toJson_eq_number {draft : Draft} {n : Number} (h : draft.toJson = .number n) :
    draft = .number n := by
  cases draft <;> simp_all [Draft.toJson]

theorem exists_numberChar (n : Number) :
    ∃ c cs, n.chars = c :: cs ∧ isNumberChar c = true := by
  obtain ⟨c, cs, htext⟩ := List.exists_cons_of_ne_nil (chars_ne_nil n)
  exact ⟨c, cs, htext, isNumberChar_of_mem c (htext ▸ List.mem_cons_self)⟩

/-- What begins with a number is a token. -/
theorem readValue_number (n : Number) (fuel depth : Nat) (rest : List Char) :
    readValue (fuel + 1) depth (n.chars ++ rest) = readToken (n.chars ++ rest) := by
  obtain ⟨c, cs, htext, hc⟩ := exists_numberChar n
  rw [htext]
  refine readValue_token (isSpace_of_isNumberChar hc) ?_ ?_ fuel depth (cs ++ rest)
  · rintro rfl
    cases hc
  · rintro rfl
    cases hc

/-- What a number is read as, it is read as in front of what may follow a value, too. -/
theorem readToken_number {n m : Number} (hback : n.IsReadAs m) (hrest : Stops rest) :
    readToken (n.chars ++ rest) = (.number m, .ok rest) := by
  obtain ⟨c, cs, htext, hc⟩ := exists_numberChar n
  have htoken (fuel depth : Nat) : readValue (fuel + 1) depth n.chars = readToken (c :: cs) := by
    rw [← htext]
    simpa using readValue_number n fuel depth []
  have hread : readToken (c :: cs) = (.number m, .ok []) := by
    unfold Number.IsReadAs parse? at hback
    rw [String.toList_ofList, htoken] at hback
    rcases hfound : readToken (c :: cs) with ⟨draft, fault | behind⟩
    · rw [hfound] at hback
      cases hback
    · rw [hfound] at hback
      dsimp only at hback
      split at hback
      · rename_i hblank
        have hnone : behind = [] := by
          rcases behind with _ | ⟨d, tail⟩
          · rfl
          · have hmem : d ∈ n.chars :=
              htext ▸ (readToken_suffix hc hfound).subset List.mem_cons_self
            rw [skipSpace_cons (isSpace_of_isNumberChar (isNumberChar_of_mem d hmem))] at hblank
            cases hblank
        rw [hnone, toJson_eq_number (Except.ok.inj hback)]
      · cases hback
  rw [htext]
  exact readToken_append hc hread hrest

/-- What a number that begins with a digit is read as from end to end. -/
theorem Number.isReadAs_of_readNumber {n m : Number} {c : Char} (htext : n.chars = c :: cs)
    (hdigit : isDigit c = true) (hread : readNumber false (c :: cs) = .ok (m, [])) :
    n.IsReadAs m := by
  have hc : isNumberChar c = true := isNumberChar_of_mem c (htext ▸ List.mem_cons_self)
  have hminus : c ≠ '-' := by
    rintro rfl
    cases hdigit
  have htoken := readToken_of_isNumberChar hc cs
  rw [if_neg hminus, if_pos hdigit, hread, ← htext] at htoken
  have hvalue := readValue_number n (2 * n.chars.length + 1) depthMax []
  rw [List.append_nil, htoken] at hvalue
  rw [Number.IsReadAs, parse?, String.toList_ofList, hvalue]
  rfl

end

/-! ## Values -/

mutual

/-- The value with its numbers exchanged. -/
def mapNumbers (f : Number → Number) : Json → Json
  | .null => .null
  | .bool b => .bool b
  | .number n => .number (f n)
  | .text s => .text s
  | .list items => .list (mapNumbersItems f items)
  | .object members => .object (mapNumbersMembers f members)

/-- The items of a list with their numbers exchanged. -/
def mapNumbersItems (f : Number → Number) : List Json → List Json
  | [] => []
  | item :: rest => mapNumbers f item :: mapNumbersItems f rest

/-- The members of an object with their numbers exchanged. -/
def mapNumbersMembers (f : Number → Number) : List (String × Json) → List (String × Json)
  | [] => []
  | (key, value) :: rest => (key, mapNumbers f value) :: mapNumbersMembers f rest

end

theorem mapNumbers_list (f : Number → Number) (items : List Json) :
    mapNumbers f (.list items) = .list (items.map (mapNumbers f)) := by
  have hitems : mapNumbersItems f items = items.map (mapNumbers f) := by
    induction items with
    | nil => rfl
    | cons item rest ih => simp [mapNumbersItems, ih]
  rw [mapNumbers, hitems]

theorem mapNumbers_object (f : Number → Number) (members : List (String × Json)) :
    mapNumbers f (.object members) = .object (members.map fun m => (m.1, mapNumbers f m.2)) := by
  have hmembers : mapNumbersMembers f members = members.map fun m => (m.1, mapNumbers f m.2) := by
    induction members with
    | nil => rfl
    | cons m rest ih => simp [mapNumbersMembers, ih]
  rw [mapNumbers, hmembers]

/-- The value can be read: its lists and objects are nested no more than `depth` deep, and the
text of each of its numbers is read as the number that `f` exchanges it for. -/
inductive Readable (f : Number → Number) : (depth : Nat) → Json → Prop where
  | null (depth : Nat) : Readable f depth .null
  | bool (depth : Nat) (b : Bool) : Readable f depth (.bool b)
  | number (depth : Nat) {n : Number} (h : n.IsReadAs (f n)) : Readable f depth (.number n)
  | text (depth : Nat) (s : String) : Readable f depth (.text s)
  | list {depth : Nat} {items : List Json} (h : ∀ v ∈ items, Readable f depth v) :
    Readable f (depth + 1) (.list items)
  | object {depth : Nat} {members : List (String × Json)}
    (h : ∀ m ∈ members, Readable f depth m.2) : Readable f (depth + 1) (.object members)

/-- The value with its numbers exchanged, as a draft. -/
def rereadDraft (f : Number → Number) (v : Json) : Draft := (v.mapNumbers f).toDraft

theorem rereadDraft_list (f : Number → Number) (items : List Json) :
    rereadDraft f (.list items) = .list (items.map (rereadDraft f)) .closed := by
  rw [rereadDraft, mapNumbers_list, toDraft_list, List.map_map]
  rfl

theorem rereadDraft_object (f : Number → Number) (members : List (String × Json)) :
    rereadDraft f (.object members) =
      .object ((members.mergeSort keyLe).map fun m => (m.1, rereadDraft f m.2)) .closed := by
  rw [rereadDraft, mapNumbers_object, toDraft_object, map_mergeSort_keyLe, List.map_map]
  rfl

/-- With enough fuel, the value is read in front of what may follow one. -/
def ReadsThrough (f : Number → Number) (depth : Nat) (v : Json) : Prop :=
  ∀ fuel rest, 2 * (canonicalChars v).length ≤ fuel → Stops rest →
    readValue fuel depth (canonicalChars v ++ rest) = (rereadDraft f v, .ok rest)

/-- The first character of a value is neither a blank nor one that may follow a value. -/
theorem exists_first (v : Json) :
    ∃ c rest, canonicalChars v = c :: rest ∧ isSpace c = false ∧ isStop c = false := by
  obtain ⟨c, rest, htext, hlead⟩ := exists_lead v
  obtain ⟨c', rest', htext', hstop⟩ := exists_begin v
  obtain ⟨rfl, rfl⟩ := List.cons.inj (htext.symm.trans htext')
  refine ⟨c, rest, htext, ?_, hstop⟩
  by_cases hc : isNumberChar c = true
  · exact isSpace_of_isNumberChar hc
  · have hself : c = v.lead := by rw [← hlead, leadOf, if_neg hc]
    rw [hself]
    cases v with
    | bool b => cases b <;> rfl
    | _ => rfl

section

variable {f : Number → Number} {depth : Nat} {rest : List Char}

/-- Behind an item, the list goes on with its other items. -/
theorem readItems_item (fuel : Nat) (first : Bool) {v : Json} {behind : List Char}
    (hread : readValue fuel depth (canonicalChars v ++ behind) = (rereadDraft f v, .ok behind)) :
    readItems (fuel + 1) depth first
        (if first then canonicalChars v ++ behind else ',' :: (canonicalChars v ++ behind)) =
      (rereadDraft f v :: (readItems fuel depth false behind).1,
        (readItems fuel depth false behind).2) := by
  obtain ⟨c, cs, htext, hspace, hstop⟩ := exists_first v
  have hclose : c ≠ ']' := by
    rintro rfl
    cases hstop
  rw [htext, List.cons_append] at hread ⊢
  cases first with
  | true =>
    simp only [if_true, readItems, skipSpace_cons hspace, hread]
  | false =>
    have hcomma : skipSpace (',' :: c :: (cs ++ behind)) = ',' :: c :: (cs ++ behind) :=
      skipSpace_cons (by decide) _
    simp only [Bool.false_eq_true, if_false, readItems, hcomma]
    split
    · rename_i heq
      cases heq
    · rename_i heq
      cases heq
    · rename_i heq
      obtain ⟨rfl, rfl⟩ := List.cons.inj heq
      rw [if_pos rfl, skipSpace_cons hspace]
      split
      · rename_i heq
        cases heq
      · rename_i heq
        exact absurd (List.cons.inj heq).1 hclose
      · rw [hread]

theorem readItems_close (fuel : Nat) (first : Bool) (rest : List Char) :
    readItems (fuel + 1) depth first (']' :: rest) = ([], .closed, .ok rest) := by
  rw [readItems, skipSpace_cons (by decide)]
  rfl

/-- Behind a member, the object goes on with its other members. -/
theorem readMembers_member (fuel : Nat) (first : Bool) {m : String × Json} {behind : List Char}
    (hread : readValue fuel depth (canonicalChars m.2 ++ behind) =
      (rereadDraft f m.2, .ok behind)) :
    readMembers (fuel + 1) depth first
        (if first then memberText m ++ behind else ',' :: (memberText m ++ behind)) =
      ((m.1, rereadDraft f m.2) :: (readMembers fuel depth false behind).1,
        (readMembers fuel depth false behind).2) := by
  have htext : memberText m ++ behind =
      '"' :: (escapeChars m.1.toList ++ '"' :: ':' :: (canonicalChars m.2 ++ behind)) := by
    simp [memberText, memberChars, quote, Text.quoteChars]
  have hquote (cs : List Char) : skipSpace ('"' :: cs) = '"' :: cs := skipSpace_cons (by decide) cs
  have hcomma (cs : List Char) : skipSpace (',' :: cs) = ',' :: cs := skipSpace_cons (by decide) cs
  have hcolon (cs : List Char) : skipSpace (':' :: cs) = ':' :: cs := skipSpace_cons (by decide) cs
  rw [htext]
  cases first with
  | true =>
    simp [readMembers, hquote, readText_escapeChars, hcolon, hread]
  | false =>
    simp [readMembers, hcomma, hquote, readText_escapeChars, hcolon, hread]

theorem readMembers_close (fuel : Nat) (first : Bool) (rest : List Char) :
    readMembers (fuel + 1) depth first ('\x7d' :: rest) = ([], .closed, .ok rest) := by
  rw [readMembers, skipSpace_cons (by decide)]
  rfl

theorem behindFirst_cons (text : List Char) (texts : List (List Char)) (rest : List Char) :
    behindFirst (text :: texts) rest = ',' :: (text ++ behindFirst texts rest) := by
  rw [← commaJoin_cons_append]
  rfl

theorem length_memberText (m : String × Json) :
    (canonicalChars m.2).length < (memberText m).length := by
  simp only [memberText, memberChars, List.length_append, List.length_cons]
  omega

/-- The items of a list behind its first one. -/
theorem readItems_behindFirst {items : List Json} (hitems : ∀ v ∈ items, ReadsThrough f depth v)
    (fuel : Nat) (hfuel : 2 * (behindFirst (items.map canonicalChars) [']']).length < fuel) :
    readItems fuel depth false (behindFirst (items.map canonicalChars) (']' :: rest)) =
      (items.map (rereadDraft f), .closed, .ok rest) := by
  induction items generalizing fuel with
  | nil =>
    obtain ⟨fuel, rfl⟩ := Nat.exists_eq_add_one_of_ne_zero (Nat.ne_zero_of_lt hfuel)
    exact readItems_close fuel false rest
  | cons v items ih =>
    obtain ⟨fuel, rfl⟩ := Nat.exists_eq_add_one_of_ne_zero (Nat.ne_zero_of_lt hfuel)
    rw [List.map_cons, behindFirst_cons] at hfuel ⊢
    simp only [List.length_cons, List.length_append] at hfuel
    have hread := hitems v List.mem_cons_self fuel
      (behindFirst (items.map canonicalChars) (']' :: rest)) (by omega)
      (stops_behindFirst _ (stops_cons (by decide)))
    have hbehind := ih (fun w hw => hitems w (List.mem_cons_of_mem v hw)) fuel (by omega)
    have hitem := readItems_item fuel false hread
    rw [if_neg (by decide)] at hitem
    rw [hitem, hbehind, List.map_cons]

/-- All items of a list. -/
theorem readItems_commaJoin {items : List Json} (hitems : ∀ v ∈ items, ReadsThrough f depth v)
    (fuel : Nat) (hfuel : 2 * (commaJoin (items.map canonicalChars) ++ [']']).length ≤ fuel) :
    readItems (fuel + 1) depth true (commaJoin (items.map canonicalChars) ++ ']' :: rest) =
      (items.map (rereadDraft f), .closed, .ok rest) := by
  cases items with
  | nil => exact readItems_close fuel true rest
  | cons v items =>
    obtain ⟨c, cs, htext, -⟩ := exists_first v
    have hpos : 0 < (canonicalChars v).length := by simp [htext]
    rw [List.map_cons, commaJoin_cons_append] at hfuel ⊢
    rw [List.length_append] at hfuel
    have hread := hitems v List.mem_cons_self fuel
      (behindFirst (items.map canonicalChars) (']' :: rest)) (by omega)
      (stops_behindFirst _ (stops_cons (by decide)))
    have hbehind : readItems fuel depth false
        (behindFirst (items.map canonicalChars) (']' :: rest)) = (items.map (rereadDraft f), _) :=
      readItems_behindFirst (fun w hw => hitems w (List.mem_cons_of_mem v hw)) fuel (by omega)
    have hitem := readItems_item fuel true hread
    rw [if_pos (by decide)] at hitem
    rw [hitem, hbehind, List.map_cons]

/-- The members of an object behind its first one. -/
theorem readMembers_behindFirst {members : List (String × Json)}
    (hmembers : ∀ m ∈ members, ReadsThrough f depth m.2)
    (fuel : Nat) (hfuel : 2 * (behindFirst (members.map memberText) ['\x7d']).length < fuel) :
    readMembers fuel depth false (behindFirst (members.map memberText) ('\x7d' :: rest)) =
      (members.map fun m => (m.1, rereadDraft f m.2), .closed, .ok rest) := by
  induction members generalizing fuel with
  | nil =>
    obtain ⟨fuel, rfl⟩ := Nat.exists_eq_add_one_of_ne_zero (Nat.ne_zero_of_lt hfuel)
    exact readMembers_close fuel false rest
  | cons m members ih =>
    obtain ⟨fuel, rfl⟩ := Nat.exists_eq_add_one_of_ne_zero (Nat.ne_zero_of_lt hfuel)
    have hlength := length_memberText m
    rw [List.map_cons, behindFirst_cons] at hfuel ⊢
    rw [List.length_cons, List.length_append] at hfuel
    have hread := hmembers m List.mem_cons_self fuel
      (behindFirst (members.map memberText) ('\x7d' :: rest)) (by omega)
      (stops_behindFirst _ (stops_cons (by decide)))
    have hbehind := ih (fun w hw => hmembers w (List.mem_cons_of_mem m hw)) fuel (by omega)
    have hmember := readMembers_member fuel false hread
    rw [if_neg (by decide)] at hmember
    rw [hmember, hbehind, List.map_cons]

/-- All members of an object. -/
theorem readMembers_commaJoin {members : List (String × Json)}
    (hmembers : ∀ m ∈ members, ReadsThrough f depth m.2) (fuel : Nat)
    (hfuel : 2 * (commaJoin (members.map memberText) ++ ['\x7d']).length ≤ fuel) :
    readMembers (fuel + 1) depth true (commaJoin (members.map memberText) ++ '\x7d' :: rest) =
      (members.map fun m => (m.1, rereadDraft f m.2), .closed, .ok rest) := by
  cases members with
  | nil => exact readMembers_close fuel true rest
  | cons m members =>
    have hlength := length_memberText m
    rw [List.map_cons, commaJoin_cons_append] at hfuel ⊢
    rw [List.length_append] at hfuel
    have hread := hmembers m List.mem_cons_self fuel
      (behindFirst (members.map memberText) ('\x7d' :: rest)) (by omega)
      (stops_behindFirst _ (stops_cons (by decide)))
    have hbehind : readMembers fuel depth false
        (behindFirst (members.map memberText) ('\x7d' :: rest)) = (members.map _, _) :=
      readMembers_behindFirst (fun w hw => hmembers w (List.mem_cons_of_mem m hw)) fuel (by omega)
    have hmember := readMembers_member fuel true hread
    rw [if_pos (by decide)] at hmember
    rw [hmember, hbehind, List.map_cons]

end

/-- A value takes fuel. -/
theorem exists_fuel {v : Json} {fuel : Nat} (h : 2 * (canonicalChars v).length ≤ fuel) :
    ∃ less, fuel = less + 1 := by
  obtain ⟨c, cs, htext, -⟩ := exists_first v
  rw [htext, List.length_cons] at h
  exact ⟨fuel - 1, by omega⟩

/-- A value that can be read is read in front of what may follow one. -/
theorem Readable.readsThrough {f : Number → Number} {depth : Nat} {v : Json}
    (h : Readable f depth v) :
    ReadsThrough f depth v := by
  induction h with
  | null depth =>
    intro fuel rest hfuel _
    obtain ⟨fuel, rfl⟩ := exists_fuel hfuel
    rfl
  | bool depth b =>
    intro fuel rest hfuel _
    obtain ⟨fuel, rfl⟩ := exists_fuel hfuel
    cases b <;> rfl
  | number depth hback =>
    rename_i n
    intro fuel rest hfuel hrest
    obtain ⟨fuel, rfl⟩ := exists_fuel hfuel
    rw [canonicalChars, readValue_number, readToken_number hback hrest]
    rfl
  | text depth s =>
    intro fuel rest hfuel _
    obtain ⟨fuel, rfl⟩ := exists_fuel hfuel
    have htext : canonicalChars (.text s) ++ rest =
        '"' :: (escapeChars s.toList ++ '"' :: rest) := by
      simp [canonicalChars, quote, Text.quoteChars]
    rw [htext, readValue_token (by decide) (by decide) (by decide), readToken,
      readText_escapeChars]
    simp [tokenResult, Except.map, rereadDraft, mapNumbers, toDraft]
  | list hitems ih =>
    rename_i items
    intro fuel rest hfuel _
    have htext : canonicalChars (.list items) ++ rest =
        '[' :: (commaJoin (items.map canonicalChars) ++ ']' :: rest) := by
      simp [canonicalChars_list]
    rw [canonicalChars_list, List.cons_append, List.length_cons] at hfuel
    obtain ⟨fuel, rfl⟩ : ∃ k, fuel = k + 2 := ⟨fuel - 2, by omega⟩
    rw [htext, readValue, skipSpace_cons (by decide), rereadDraft_list]
    simp only [readItems_commaJoin ih fuel (by omega)]
  | object hmembers ih =>
    rename_i members
    intro fuel rest hfuel _
    have htext : canonicalChars (.object members) ++ rest =
        '\x7b' :: (commaJoin ((members.mergeSort keyLe).map memberText) ++ '\x7d' :: rest) := by
      simp [canonicalChars_object]
    rw [canonicalChars_object, List.cons_append, List.length_cons] at hfuel
    obtain ⟨fuel, rfl⟩ : ∃ k, fuel = k + 2 := ⟨fuel - 2, by omega⟩
    have hsorted : ∀ m ∈ members.mergeSort keyLe, ReadsThrough f _ m.2 :=
      fun m hm => ih m (List.mem_mergeSort.mp hm)
    rw [htext, readValue, skipSpace_cons (by decide), rereadDraft_object]
    simp only [readMembers_commaJoin hsorted fuel (by omega)]

/-- The canonical text of a value that can be read is read from end to end. -/
theorem readDraft_canonical {f : Number → Number} {v : Json} (h : Readable f depthMax v) :
    readDraft v.canonical.toList = (rereadDraft f v, none) := by
  have hread := h.readsThrough (2 * (canonicalChars v).length + 2) [] (by omega) stops_nil
  rw [List.append_nil] at hread
  rw [canonical, String.toList_ofList, readDraft, hread]
  rfl

end RunLedger.Json
