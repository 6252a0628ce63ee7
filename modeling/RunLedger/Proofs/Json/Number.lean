/-
  Proofs/Json/Number.lean --- the text of a number tells which number it is.

  WHAT THIS FILE IS FOR.  The three layouts of a decimal have one reading: the
  digits around the point, and the power of ten that the point and the exponent
  ask for.  So the text of a binary64 number gives back the decimal that was chosen
  for it, and that decimal belongs to no other number.
-/
import Mathlib.Data.List.DropRight
import RunLedger.Json.Number
import RunLedger.Proofs.Decimal.Shortest

set_option autoImplicit false

namespace RunLedger.Json

open RunLedger.Decimal
open Nat (ofDigitChars)

/-! ## What a text of digits stands for -/

/-- The digits before the point. -/
def wholeChars (mantissa : List Char) : List Char := mantissa.takeWhile (· != '.')

/-- The digits after the point. -/
def fractionChars (mantissa : List Char) : List Char := (mantissa.dropWhile (· != '.')).tail

/-- The quantity that digits with or without a point stand for. -/
def mantissaValue (mantissa : List Char) : ℚ :=
  ofDigitChars 10 (wholeChars mantissa ++ fractionChars mantissa) 0 *
    (10 : ℚ) ^ (-((fractionChars mantissa).length : Int))

/-- The number that an exponent stands for. -/
def exponentValue : List Char → Int
  | '-' :: digits => -(ofDigitChars 10 digits 0 : Int)
  | _ :: digits => ofDigitChars 10 digits 0
  | [] => 0

/-- The quantity that a decimal text without a sign stands for. -/
def decimalValue (cs : List Char) : ℚ :=
  mantissaValue (cs.takeWhile (· != 'e')) *
    (10 : ℚ) ^ exponentValue (cs.dropWhile (· != 'e')).tail

/-- All characters are decimal digits. -/
def AllDigits (cs : List Char) : Prop := ∀ c ∈ cs, c.isDigit = true

theorem AllDigits.append {cs ds : List Char} (hcs : AllDigits cs) (hds : AllDigits ds) :
    AllDigits (cs ++ ds) := by
  intro c hc
  rcases List.mem_append.mp hc with h | h
  · exact hcs c h
  · exact hds c h

theorem AllDigits.not_mem {cs : List Char} {c : Char} (h : AllDigits cs)
    (hc : c.isDigit = false) : c ∉ cs := by
  intro hmem
  rw [h c hmem] at hc
  cases hc

theorem allDigits_natChars (n : Nat) : AllDigits (natChars n) := fun _ hc =>
  Nat.isDigit_of_mem_toDigits (by decide) (by decide) hc

theorem allDigits_replicate (n : Nat) : AllDigits (List.replicate n '0') := by
  intro c hc
  rw [List.eq_of_mem_replicate hc]
  decide

theorem allDigits_zero : AllDigits ['0'] := allDigits_replicate 1

theorem natChars_injective : Function.Injective natChars := by
  intro m n h
  have hvalue := congrArg (fun cs => ofDigitChars 10 cs 0) h
  simpa [natChars] using hvalue

/-! ### Texts that are cut at one character -/

theorem takeWhile_ne_append {cs rest : List Char} {c : Char} (h : c ∉ cs) :
    (cs ++ c :: rest).takeWhile (· != c) = cs := by
  induction cs with
  | nil => simp
  | cons d cs ih =>
    have hd : d ≠ c := fun heq => h (heq ▸ List.mem_cons_self)
    simp [hd, ih (fun hmem => h (List.mem_cons_of_mem d hmem))]

theorem dropWhile_ne_append {cs rest : List Char} {c : Char} (h : c ∉ cs) :
    (cs ++ c :: rest).dropWhile (· != c) = c :: rest := by
  induction cs with
  | nil => simp
  | cons d cs ih =>
    have hd : d ≠ c := fun heq => h (heq ▸ List.mem_cons_self)
    simp [hd, ih (fun hmem => h (List.mem_cons_of_mem d hmem))]

theorem takeWhile_ne_self {cs : List Char} {c : Char} (h : c ∉ cs) :
    cs.takeWhile (· != c) = cs :=
  List.takeWhile_eq_self_iff.mpr fun d hd => by
    have hne : d ≠ c := fun heq => h (heq ▸ hd)
    simpa using hne

theorem dropWhile_ne_self {cs : List Char} {c : Char} (h : c ∉ cs) :
    cs.dropWhile (· != c) = [] :=
  List.dropWhile_eq_nil_iff.mpr fun d hd => by
    have hne : d ≠ c := fun heq => h (heq ▸ hd)
    simpa using hne

/-! ### The layouts -/

theorem mantissaValue_digits {digits : List Char} (h : AllDigits digits) :
    mantissaValue digits = ofDigitChars 10 digits 0 := by
  have hpoint : '.' ∉ digits := h.not_mem (by decide)
  simp [mantissaValue, wholeChars, fractionChars, takeWhile_ne_self hpoint,
    dropWhile_ne_self hpoint]

theorem mantissaValue_pointed {whole : List Char} (fraction : List Char) (h : AllDigits whole) :
    mantissaValue (whole ++ '.' :: fraction) =
      ofDigitChars 10 (whole ++ fraction) 0 * (10 : ℚ) ^ (-(fraction.length : Int)) := by
  have hpoint : '.' ∉ whole := h.not_mem (by decide)
  simp only [mantissaValue, wholeChars, fractionChars, takeWhile_ne_append hpoint,
    dropWhile_ne_append hpoint, List.tail_cons]

theorem decimalValue_of_not_mem {cs : List Char} (h : 'e' ∉ cs) :
    decimalValue cs = mantissaValue cs := by
  simp [decimalValue, takeWhile_ne_self h, dropWhile_ne_self h, exponentValue]

theorem decimalValue_exponent {mantissa : List Char} (exponent : List Char) (h : 'e' ∉ mantissa) :
    decimalValue (mantissa ++ 'e' :: exponent) =
      mantissaValue mantissa * (10 : ℚ) ^ exponentValue exponent := by
  simp only [decimalValue, takeWhile_ne_append h, dropWhile_ne_append h, List.tail_cons]

/-- Digits with a point among or behind them. -/
theorem decimalValue_pointedChars {digits : List Char} (h : AllDigits digits) (whole : Nat) :
    decimalValue (pointedChars digits whole) =
      ofDigitChars 10 digits 0 * (10 : ℚ) ^ ((whole : Int) - digits.length) := by
  have htake : AllDigits (digits.take whole) := fun c hc => h c (List.mem_of_mem_take hc)
  have hdrop : AllDigits (digits.drop whole) := fun c hc => h c (List.mem_of_mem_drop hc)
  have hbefore : AllDigits (digits.take whole ++ List.replicate (whole - digits.length) '0') :=
    htake.append (allDigits_replicate _)
  have hletter {fraction : List Char} (hfraction : AllDigits fraction) :
      'e' ∉ digits.take whole ++ List.replicate (whole - digits.length) '0' ++ '.' :: fraction := by
    simp only [List.mem_append, List.mem_cons, not_or]
    exact ⟨⟨htake.not_mem (by decide), (allDigits_replicate _).not_mem (by decide)⟩, by decide,
      hfraction.not_mem (by decide)⟩
  unfold pointedChars
  dsimp only
  by_cases hlength : digits.length ≤ whole
  · have hnone : digits.drop whole = [] := List.drop_eq_nil_of_le hlength
    rw [hnone, List.isEmpty_nil, if_pos rfl, decimalValue_of_not_mem (hletter allDigits_zero),
      mantissaValue_pointed _ hbefore, List.take_of_length_le hlength, Nat.ofDigitChars_append,
      Nat.ofDigitChars_append, Nat.ofDigitChars_replicate_zero]
    have hwhole : (whole : Int) - digits.length = (whole - digits.length : Nat) := by omega
    rw [hwhole, zpow_natCast]
    simp [Nat.ofDigitChars_cons]
    ring
  · have hsome : (digits.drop whole).isEmpty = false := by
      rw [List.isEmpty_eq_false_iff]
      intro hnil
      exact hlength (List.drop_eq_nil_iff.mp hnil)
    have hnone : whole - digits.length = 0 := by omega
    rw [hsome, if_neg (by decide), decimalValue_of_not_mem (hletter hdrop),
      mantissaValue_pointed _ hbefore, hnone, List.replicate_zero, List.append_nil,
      List.take_append_drop, List.length_drop]
    congr 2
    omega

theorem exponentValue_placed (place : Int) :
    exponentValue ((if place < 0 then '-' else '+') :: natChars place.natAbs) = place := by
  have hdigits : ofDigitChars 10 (natChars place.natAbs) 0 = place.natAbs :=
    Nat.ofDigitChars_ten_toDigits
  split
  · show -((ofDigitChars 10 (natChars place.natAbs) 0 : Nat) : Int) = place
    rw [hdigits]
    omega
  · show ((ofDigitChars 10 (natChars place.natAbs) 0 : Nat) : Int) = place
    rw [hdigits]
    omega

/-- A decimal whose first digit has a place, in the layout for that place, stands for its digits
times the power of ten of the last one. -/
theorem decimalValue_placedChars {digits : List Char} (h : AllDigits digits) (hne : digits ≠ [])
    (place : Int) :
    decimalValue (placedChars digits place) =
      ofDigitChars 10 digits 0 * (10 : ℚ) ^ (place + 1 - digits.length) := by
  unfold placedChars
  split
  · match place with
    | .ofNat n =>
      dsimp only
      rw [decimalValue_pointedChars h]
      rfl
    | .negSucc n =>
      have hzeros : AllDigits (List.replicate n '0' ++ digits) := (allDigits_replicate n).append h
      have hletter : 'e' ∉ ['0'] ++ '.' :: (List.replicate n '0' ++ digits) := by
        simp only [List.mem_append, List.mem_cons, not_or]
        exact ⟨by decide, by decide, (allDigits_replicate n).not_mem (by decide),
          h.not_mem (by decide)⟩
      have htext : '0' :: '.' :: (List.replicate n '0' ++ digits) =
          ['0'] ++ '.' :: (List.replicate n '0' ++ digits) := rfl
      dsimp only
      rw [htext, decimalValue_of_not_mem hletter, mantissaValue_pointed _ allDigits_zero,
        Nat.ofDigitChars_append, Nat.ofDigitChars_append, List.length_append,
        List.length_replicate]
      have hplace : Int.negSucc n + 1 - digits.length = -((n + digits.length : Nat) : Int) := by
        omega
      rw [hplace]
      simp [Nat.ofDigitChars_cons]
  · match digits, hne with
    | [d], _ =>
      have hletter : 'e' ∉ [d] := h.not_mem (by decide)
      dsimp only
      rw [decimalValue_exponent _ hletter, exponentValue_placed, mantissaValue_digits h]
      simp
    | first :: second :: rest, _ =>
      have hfirst : AllDigits [first] := fun c hc => h c (by simp_all)
      have hletter : 'e' ∉ [first] ++ '.' :: second :: rest := by
        simp only [List.mem_append, List.mem_cons, not_or]
        have hno := h.not_mem (c := 'e') (by decide)
        simp only [List.mem_cons, not_or] at hno
        exact ⟨⟨hno.1, by simp⟩, by decide, hno.2.1, hno.2.2⟩
      have htext : first :: '.' :: second :: rest ++
          'e' :: (if place < 0 then '-' else '+') :: natChars place.natAbs =
          ([first] ++ '.' :: second :: rest) ++
            'e' :: (if place < 0 then '-' else '+') :: natChars place.natAbs := rfl
      dsimp only
      rw [htext, decimalValue_exponent _ hletter, exponentValue_placed,
        mantissaValue_pointed _ hfirst, mul_assoc, ← zpow_add₀ (by norm_num)]
      have hplace : -((second :: rest).length : Int) + place =
          place + 1 - (first :: second :: rest).length := by
        simp only [List.length_cons]
        omega
      rw [hplace]
      rfl

/-! ## Binary64 numbers -/

/-- The decimal that a magnitude is written as belongs to the magnitude. -/
theorem owns_magnitudeChars (rank : Nat) :
    (intervalOf rank).Owns (decimalValue (magnitudeChars rank) * quarters) := by
  unfold magnitudeChars
  by_cases hzero : rank = 0
  · subst hzero
    have hvalue : decimalValue ['0', '.', '0'] = 0 := by
      have htext : ['0', '.', '0'] = ['0'] ++ '.' :: ['0'] := rfl
      rw [htext, decimalValue_of_not_mem (by decide),
        mantissaValue_pointed _ allDigits_zero]
      simp [Nat.ofDigitChars_cons]
    have hclosed : (intervalOf 0).closed = true := (intervalOf_closed 0).mpr rfl
    have hlow : (intervalOf 0).low = 0 := by decide +kernel
    rw [if_pos rfl, hvalue, zero_mul, Interval.Owns, if_pos hclosed, hlow]
    exact ⟨by simp, by positivity⟩
  · have hplace : (shortest rank).exponent + (natChars (shortest rank).digits).length - 1 + 1 -
        (natChars (shortest rank).digits).length = (shortest rank).exponent := by omega
    have hvalue : decimalValue (placedChars (natChars (shortest rank).digits)
        ((shortest rank).exponent + (natChars (shortest rank).digits).length - 1)) =
        (shortest rank).value := by
      rw [decimalValue_placedChars (allDigits_natChars _) Nat.toDigits_ne_nil, hplace,
        Shortest.value, natChars, Nat.ofDigitChars_ten_toDigits]
    rw [if_neg hzero]
    dsimp only
    rw [hvalue]
    exact owns_shortest (Nat.pos_of_ne_zero hzero)

theorem magnitudeChars_injective : Function.Injective magnitudeChars := by
  intro r s h
  have hr := owns_magnitudeChars r
  rw [h] at hr
  exact eq_of_owns hr (owns_magnitudeChars s)

/-! ## The characters of a number -/

/-- The characters that numbers are written with. -/
def isNumberChar (c : Char) : Bool :=
  c.isDigit || c == '-' || c == '+' || c == '.' || c == 'e'

/-- What a magnitude is written with: a digit first, then digits, points and exponents, of which
there is at least one. -/
structure IsMagnitudeText (cs : List Char) : Prop where
  begins : ∃ c rest, cs = c :: rest ∧ c.isDigit = true
  chars : ∀ c ∈ cs, isNumberChar c = true
  marked : '.' ∈ cs ∨ 'e' ∈ cs

theorem AllDigits.isNumberChar {cs : List Char} (h : AllDigits cs) :
    ∀ c ∈ cs, isNumberChar c = true := fun c hc => by
  simp [Json.isNumberChar, h c hc]

/-- Number characters around a mark. -/
theorem isMagnitudeText_of_mark {first mark : Char} (before : List Char) {behind : List Char}
    (hfirst : first.isDigit = true) (hmark : mark = '.' ∨ mark = 'e')
    (hbefore : ∀ c ∈ before, isNumberChar c = true)
    (hbehind : ∀ c ∈ behind, isNumberChar c = true) :
    IsMagnitudeText (first :: before ++ mark :: behind) where
  begins := ⟨first, before ++ mark :: behind, rfl, hfirst⟩
  chars c hc := by
    rcases List.mem_append.mp hc with hc | hc
    · rcases List.mem_cons.mp hc with rfl | hc
      · simp [isNumberChar, hfirst]
      · exact hbefore c hc
    · rcases List.mem_cons.mp hc with rfl | hc
      · rcases hmark with rfl | rfl <;> decide
      · exact hbehind c hc
  marked := by
    rcases hmark with rfl | rfl
    · exact .inl (by simp)
    · exact .inr (by simp)

theorem isMagnitudeText_placedChars {digits : List Char} (h : AllDigits digits)
    (hne : digits ≠ []) (place : Int) : IsMagnitudeText (placedChars digits place) := by
  unfold placedChars
  split
  · match place with
    | .ofNat n =>
      dsimp only [pointedChars]
      obtain ⟨first, rest, rfl⟩ := List.exists_cons_of_ne_nil hne
      rw [List.take_succ_cons, List.cons_append]
      refine isMagnitudeText_of_mark _ (h first List.mem_cons_self) (.inl rfl) ?_ ?_
      · refine (AllDigits.append ?_ (allDigits_replicate _)).isNumberChar
        exact fun c hc => h c (List.mem_cons_of_mem _ (List.mem_of_mem_take hc))
      · split
        · exact allDigits_zero.isNumberChar
        · exact fun c hc => h.isNumberChar c (List.mem_of_mem_drop hc)
    | .negSucc n =>
      exact isMagnitudeText_of_mark [] (by decide) (.inl rfl) (by simp)
        ((allDigits_replicate n).append h).isNumberChar
  · have hexponent : ∀ c ∈ (if place < 0 then '-' else '+') :: natChars place.natAbs,
        isNumberChar c = true := by
      intro c hc
      rcases List.mem_cons.mp hc with rfl | hc
      · split <;> decide
      · exact (allDigits_natChars _).isNumberChar c hc
    match digits, hne with
    | [d], _ =>
      exact isMagnitudeText_of_mark [] (h d List.mem_cons_self) (.inr rfl) (by simp)
        hexponent
    | first :: second :: rest, _ =>
      refine isMagnitudeText_of_mark [] (h first List.mem_cons_self) (.inl rfl)
        (by simp) ?_
      intro c hc
      rcases List.mem_append.mp hc with hc | hc
      · exact h.isNumberChar c (List.mem_cons_of_mem _ hc)
      · rcases List.mem_cons.mp hc with rfl | hc
        · decide
        · exact hexponent c hc

theorem isMagnitudeText_magnitudeChars (rank : Nat) : IsMagnitudeText (magnitudeChars rank) := by
  unfold magnitudeChars
  split
  · exact isMagnitudeText_of_mark [] (by decide) (.inl rfl) (by simp)
      allDigits_zero.isNumberChar
  · exact isMagnitudeText_placedChars (allDigits_natChars _) Nat.toDigits_ne_nil _

/-! ## Numbers -/

/-- A minus before a text that does not begin with one. -/
theorem signed_injective {p q : Bool} {cs ds : List Char} (hcs : cs.head? ≠ some '-')
    (hds : ds.head? ≠ some '-')
    (h : (if p then '-' :: cs else cs) = if q then '-' :: ds else ds) : p = q ∧ cs = ds := by
  cases p <;> cases q <;> simp only [Bool.false_eq_true, if_false, if_true] at h
  · exact ⟨rfl, h⟩
  · exact absurd (by rw [h]; rfl) hcs
  · exact absurd (by rw [← h]; rfl) hds
  · exact ⟨rfl, (List.cons.inj h).2⟩

theorem head?_magnitudeChars (rank : Nat) : (magnitudeChars rank).head? ≠ some '-' := by
  obtain ⟨c, rest, htext, hdigit⟩ := (isMagnitudeText_magnitudeChars rank).begins
  rw [htext, List.head?_cons]
  rintro h
  rw [Option.some.inj h] at hdigit
  cases hdigit

theorem realChars_injective : Function.Injective realChars := by
  intro x y h
  obtain ⟨hsign, hrank⟩ := signed_injective (head?_magnitudeChars x.rank)
    (head?_magnitudeChars y.rank) h
  cases x
  cases y
  obtain rfl := hsign
  obtain rfl := magnitudeChars_injective hrank
  rfl

theorem head?_natChars (n : Nat) : (natChars n).head? ≠ some '-' := by
  intro h
  have hmem : '-' ∈ natChars n := List.mem_of_mem_head? h
  exact (allDigits_natChars n).not_mem (by decide) hmem

theorem intChars_injective : Function.Injective intChars := by
  intro m n h
  have hsigned (k : Int) : intChars k =
      if decide (k < 0) then '-' :: natChars k.natAbs else natChars k.natAbs := by
    simp [intChars]
  rw [hsigned, hsigned] at h
  obtain ⟨hsign, hdigits⟩ := signed_injective (head?_natChars _) (head?_natChars _) h
  have habs := natChars_injective hdigits
  have hiff : m < 0 ↔ n < 0 := by simpa using hsign
  omega

theorem chars_intChars (n : Int) : ∀ c ∈ intChars n, c = '-' ∨ c.isDigit = true := by
  intro c hc
  unfold intChars at hc
  split at hc
  · rcases List.mem_cons.mp hc with rfl | hc
    · exact .inl rfl
    · exact .inr (allDigits_natChars _ c hc)
  · exact .inr (allDigits_natChars _ c hc)

theorem mark_mem_realChars (x : Binary64) : '.' ∈ realChars x ∨ 'e' ∈ realChars x := by
  have hmarked := (isMagnitudeText_magnitudeChars x.rank).marked
  unfold realChars
  split
  · exact hmarked.imp (List.mem_cons_of_mem _) (List.mem_cons_of_mem _)
  · exact hmarked

theorem intChars_ne_realChars (n : Int) (x : Binary64) : intChars n ≠ realChars x := by
  intro h
  have hmark := mark_mem_realChars x
  rw [← h] at hmark
  rcases hmark with hmem | hmem
  · rcases chars_intChars n _ hmem with h | h <;> cases h
  · rcases chars_intChars n _ hmem with h | h <;> cases h

/-- The text of a number tells which number it is. -/
theorem chars_injective : Function.Injective Number.chars := by
  intro m n h
  match m, n with
  | .whole m, .whole n => exact congrArg Number.whole (intChars_injective h)
  | .real x, .real y => exact congrArg Number.real (realChars_injective h)
  | .whole m, .real y => exact absurd h (intChars_ne_realChars m y)
  | .real x, .whole n => exact absurd h.symm (intChars_ne_realChars n x)

theorem isNumberChar_of_mem {n : Number} : ∀ c ∈ n.chars, isNumberChar c = true := by
  intro c hc
  match n with
  | .whole n =>
    rcases chars_intChars n c hc with rfl | hdigit
    · decide
    · simp [isNumberChar, hdigit]
  | .real x =>
    have hchars := (isMagnitudeText_magnitudeChars x.rank).chars
    have hc' : c ∈ realChars x := hc
    unfold realChars at hc'
    split at hc'
    · rcases List.mem_cons.mp hc' with rfl | hc'
      · decide
      · exact hchars c hc'
    · exact hchars c hc'

theorem chars_ne_nil (n : Number) : n.chars ≠ [] := by
  match n with
  | .whole n =>
    show intChars n ≠ []
    unfold intChars
    split
    · exact List.cons_ne_nil _ _
    · exact Nat.toDigits_ne_nil
  | .real x =>
    intro h
    have hnil : realChars x = [] := h
    have hmark := mark_mem_realChars x
    rw [hnil] at hmark
    simp at hmark

end RunLedger.Json
