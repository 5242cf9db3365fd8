import PortLogic.Json.Print
import PortLogic.Proofs.Json.Grammar

/-!
# PortLogic.Proofs.Json.Number — JSON numbers read and written

1. **Values**: the shortcuts that the plain reader takes for exponents far outside the range of the
   format agree with rounding the decimal (`realOf_eq`).
2. **Digits**: a numeral is read up to what follows it, with an exponent or without.
3. **Reading**: the texts of numbers and of 64-bit integers are read as these
   (`IsReal.readMagnitude`, `readMagnitude_integer`).
4. **Writing**: a finite number is written as a text of it (`isReal_magnitudeText`).
-/

namespace PortLogic

-- powers of naturals are the built-in ones, whatever algebra is in scope
attribute [local instance (2000)] instPowNat

namespace Json

open Number

/-! ## Values -/

theorem digitsValue_eq (ds : List Char) : digitsValue ds = Nat.ofDigitChars 10 ds 0 :=
  Nat.ofDigitChars_eq_foldl.symm

/-- A real number is the number nearest to its decimal, when that is finite. -/
theorem realOf_eq {ds : List Char} (hdigits : ∀ c ∈ ds, c.isDigit = true) (negative : Bool)
    (e : Int) :
    realOf negative ds e =
      if (ofDecimal negative ⟨digitsValue ds, e⟩).isFinite then
        .real (ofDecimal negative ⟨digitsValue ds, e⟩)
      else .unreadable := by
  rcases Magnitude.exists_zero with ⟨z, hz⟩
  have hvalue : digitsValue ds < 10 ^ ds.length := digitsValue_eq ds ▸ ofDigitChars_lt hdigits
  unfold realOf
  simp only
  by_cases hsmall : digitsValue ds = 0 ∨ e + ds.length < -400
  · have hzero : ofDecimal negative ⟨digitsValue ds, e⟩ = .finite negative z := by
      rcases hsmall with hnone | hplace
      · rw [hnone, ofDecimal_zero hz]
      · rw [ofDecimal_of_small negative hvalue hplace, round_zero hz]
    rw [if_pos hsmall, hzero, round_zero hz]
    rfl
  rw [if_neg hsmall]
  by_cases hlarge : 400 < e
  · rw [if_pos hlarge, ofDecimal_of_large negative (by omega) hlarge]
    rfl
  · rw [if_neg hlarge]

/-! ## Digits -/

/-- What may follow a number: nothing that goes on with it. -/
def Ends (rest : List Char) : Prop :=
  ∀ c ∈ rest.head?, c.isDigit = false ∧ c ≠ '.' ∧ c ≠ 'e' ∧ c ≠ 'E'

variable {ds rest tail : List Char}

theorem takeWhile_digits (hdigits : ∀ c ∈ ds, c.isDigit = true)
    (htail : ∀ c ∈ tail.head?, c.isDigit = false) : (ds ++ tail).takeWhile Char.isDigit = ds := by
  rw [List.takeWhile_append_of_pos hdigits]
  cases tail with
  | nil => exact List.append_nil ds
  | cons c tail => rw [List.takeWhile_cons_of_neg (by simp [htail c rfl]), List.append_nil]

theorem dropWhile_digits (hdigits : ∀ c ∈ ds, c.isDigit = true)
    (htail : ∀ c ∈ tail.head?, c.isDigit = false) : (ds ++ tail).dropWhile Char.isDigit = tail := by
  rw [List.dropWhile_append_of_pos hdigits]
  cases tail with
  | nil => rfl
  | cons c tail => rw [List.dropWhile_cons_of_neg (by simp [htail c rfl])]

theorem readFraction_pointed {fraction : Option (List Char)}
    (hdigits : ∀ c ∈ fraction.getD [], c.isDigit = true) (hne : fraction ≠ some [])
    (htail : ∀ c ∈ tail.head?, c.isDigit = false ∧ c ≠ '.') :
    readFraction (Decimal.pointed fraction ++ tail) = some (fraction.getD [], tail) := by
  cases fraction with
  | none =>
    show readFraction tail = some ([], tail)
    cases tail with
    | nil => rfl
    | cons c tail =>
      unfold readFraction
      split
      · next hpoint =>
        cases hpoint
        exact absurd rfl (htail _ rfl).2
      · rfl
  | some digits =>
    have hdigits : ∀ c ∈ digits, c.isDigit = true := hdigits
    show readFraction ('.' :: (digits ++ tail)) = some (digits, tail)
    unfold readFraction
    simp only
    rw [takeWhile_digits hdigits fun c hc => (htail c hc).1,
      dropWhile_digits hdigits fun c hc => (htail c hc).1, if_neg fun h => hne (congrArg some h)]

theorem readExponent_of_ends (h : Ends rest) : readExponent rest = some (none, rest) := by
  cases rest with
  | nil => rfl
  | cons c rest =>
    rcases h c rfl with ⟨-, -, hlower, hupper⟩
    have hnone : ¬(c = 'e' ∨ c = 'E') := fun hc => hc.elim hlower hupper
    unfold readExponent
    simp only
    rw [if_neg hnone]

theorem readExponentDigits_text (negative : Bool) (hdigits : ∀ c ∈ ds, c.isDigit = true)
    (hne : ds ≠ []) (h : Ends rest) :
    readExponentDigits negative (ds ++ rest) =
      some (some (if negative then -(Nat.ofDigitChars 10 ds 0 : Int)
        else Nat.ofDigitChars 10 ds 0), rest) := by
  unfold readExponentDigits
  simp only
  rw [takeWhile_digits hdigits fun c hc => (h c hc).1,
    dropWhile_digits hdigits fun c hc => (h c hc).1, if_neg hne, digitsValue_eq]

/-- An exponent is read up to what follows it. -/
theorem IsExponent.readExponent {tail : List Char} {e : Int} (htail : IsExponent tail e)
    (h : Ends rest) : readExponent (tail ++ rest) = some (some e, rest) := by
  rcases htail with @⟨mark, before, ds, negative, hmark, hsign, hdigits, hne⟩
  have hread := readExponentDigits_text negative hdigits hne h
  unfold Json.readExponent
  simp only [List.cons_append]
  rw [if_pos hmark]
  simp only [exponentSigns, List.mem_cons, List.not_mem_nil, or_false, Prod.mk.injEq] at hsign
  rcases hsign with ⟨rfl, rfl⟩ | ⟨rfl, rfl⟩ | ⟨rfl, rfl⟩
  · -- without a sign, the first character is a digit
    rcases List.exists_cons_of_ne_nil hne with ⟨d, more, rfl⟩
    have hd := hdigits d List.mem_cons_self
    simp only [List.nil_append, List.cons_append] at hread ⊢
    split
    · next heq =>
      cases heq
      cases hd
    · next heq =>
      cases heq
      cases hd
    · exact hread
  · exact hread
  · exact hread

theorem IsExponent.head? {tail : List Char} {e : Int} (htail : IsExponent tail e) :
    ∀ c ∈ (tail ++ rest).head?, c.isDigit = false ∧ c ≠ '.' := by
  rcases htail with ⟨rfl | rfl, -, -, -⟩
  all_goals
    rintro c ⟨⟩
    decide

/-- A numeral is read as an integer, or with what follows its whole digits as a real number. -/
theorem readMagnitude_numeral (n : Numeral) (htrimmed : n.Trimmed) (negative : Bool)
    (htail : ∀ c ∈ tail.head?, c.isDigit = false ∧ c ≠ '.') {exponent : Option Int}
    (hexponent : readExponent tail = some (exponent, rest)) :
    readMagnitude negative (n.chars ++ tail) =
      some (if n.fraction = none ∧ exponent = none then integerOf negative n.whole
        else realOf negative (n.whole ++ n.fraction.getD [])
          (exponent.getD 0 - (n.fraction.getD []).length), rest) := by
  have hstart : ∀ c ∈ (Decimal.pointed n.fraction ++ tail).head?, c.isDigit = false := by
    intro c hc
    cases hfraction : n.fraction with
    | none =>
      rw [hfraction] at hc
      exact (htail c hc).1
    | some digits =>
      rw [hfraction] at hc
      cases hc
      decide
  have hgood : ¬(n.whole = [] ∨ n.whole.head? = some '0' ∧ 1 < n.whole.length) := by
    rintro (hempty | ⟨hzero, hlong⟩)
    · exact n.whole_ne_nil hempty
    · exact Nat.ne_of_gt hlong (htrimmed hzero)
  unfold readMagnitude
  simp only
  rw [Numeral.chars, List.append_assoc, takeWhile_digits n.whole_digits hstart,
    dropWhile_digits n.whole_digits hstart, if_neg hgood,
    readFraction_pointed n.fraction_digits n.fraction_ne_nil htail]
  simp only [Option.bind_eq_bind, Option.bind_some, hexponent]
  -- a fraction is not empty, so it is never taken for an integer
  have hne := n.fraction_ne_nil
  generalize n.fraction = fraction at hne ⊢
  rcases fraction with _ | (_ | ⟨digit, digits⟩)
  · cases exponent with
    | none =>
      rw [if_pos ⟨rfl, rfl⟩]
      rfl
    | some e =>
      rw [if_neg fun h => Option.some_ne_none e h.2]
      rfl
  · exact absurd rfl hne
  · rw [if_neg fun h => Option.some_ne_none _ h.1]
    rfl

/-! ## Reading -/

theorem Ends.of_head? (h : Ends rest) : ∀ c ∈ rest.head?, c.isDigit = false ∧ c ≠ '.' :=
  fun c hc => ⟨(h c hc).1, (h c hc).2.1⟩

/-- The text of a real number is a sign and what starts with a digit, and is read as the number. -/
theorem IsReal.readMagnitude {cs : List Char} {x : Number} (hreal : IsReal cs x)
    (hfinite : x.isFinite = true) :
    ∃ negative digits, cs = sign negative ++ digits ∧
      (∃ c ds, digits = c :: ds ∧ c.isDigit = true) ∧
      ∀ rest, Ends rest → Json.readMagnitude negative (digits ++ rest) = some (.real x, rest) := by
  rcases hreal with @⟨n, negative, htrimmed, hpoint⟩ | @⟨n, tail, e, negative, htrimmed, htail⟩
  · refine ⟨negative, n.chars, rfl, n.exists_first, fun rest h => ?_⟩
    have hvalue : (⟨digitsValue (n.whole ++ n.fraction.getD []),
        0 - ((n.fraction.getD []).length : Int)⟩ : Decimal) = n.decimal := by
      rw [digitsValue_eq, Int.zero_sub]
      rfl
    rw [readMagnitude_numeral n htrimmed negative h.of_head? (readExponent_of_ends h),
      if_neg fun hnone => hpoint hnone.1, Option.getD_none, realOf_eq n.isDigit_of_mem, hvalue,
      if_pos hfinite]
  · rcases n.exists_first with ⟨c, ds, hfirst, hdigit⟩
    refine ⟨negative, n.chars ++ tail, rfl, ⟨c, ds ++ tail, by rw [hfirst]; rfl, hdigit⟩,
      fun rest h => ?_⟩
    have hvalue : (⟨digitsValue (n.whole ++ n.fraction.getD []),
        e - ((n.fraction.getD []).length : Int)⟩ : Decimal) =
          ⟨n.decimal.digits, n.decimal.exponent + e⟩ := by
      rw [digitsValue_eq, Int.sub_eq_add_neg, Int.add_comm]
      rfl
    rw [List.append_assoc,
      readMagnitude_numeral n htrimmed negative htail.head? (htail.readExponent h),
      if_neg fun hnone => Option.some_ne_none _ hnone.2, Option.getD_some,
      realOf_eq n.isDigit_of_mem, hvalue, if_pos hfinite]

/-- The digits of an integer of at most 64 bits are read as the integer. -/
theorem readMagnitude_integer (i : Int) (hlow : -(2 ^ (63 : Nat)) ≤ i) (hhigh : i < 2 ^ (64 : Nat))
    (h : Ends rest) :
    readMagnitude (i < 0) (Nat.toDigits 10 i.natAbs ++ rest) = some (.integer i, rest) := by
  rcases Decimal.exists_numeral_of_whole (d := ⟨i.natAbs, 0⟩) rfl with
    ⟨n, hchars, hnone, htrimmed, -⟩
  have hdigits : n.chars = Nat.toDigits 10 i.natAbs := by
    rw [hchars]
    exact List.append_nil _
  have hwhole : n.whole = Nat.toDigits 10 i.natAbs := by
    rw [← hdigits, Numeral.chars, hnone]
    exact (List.append_nil _).symm
  have hvalue : digitsValue (Nat.toDigits 10 i.natAbs) = i.natAbs := by
    rw [digitsValue_eq, Nat.ofDigitChars_ten_toDigits]
  have hread : integerOf (i < 0) (Nat.toDigits 10 i.natAbs) = .integer i := by
    unfold integerOf
    simp only [decide_eq_true_eq]
    rw [hvalue]
    split
    · rw [if_neg (by omega)]
      congr 1
      omega
    · rw [if_pos (by omega)]
      congr 1
      omega
  rw [← hdigits, readMagnitude_numeral n (htrimmed (Or.inr rfl)) _ h.of_head?
    (readExponent_of_ends h), if_pos ⟨hnone, rfl⟩, hwhole, hread]

/-! ## Writing -/

/-- A place is written with its sign. -/
theorem isExponent_place (place : Int) :
    IsExponent ('e' :: (if place < 0 then '-' else '+') :: Nat.toDigits 10 place.natAbs) place := by
  have hdigits : ∀ c ∈ Nat.toDigits 10 place.natAbs, c.isDigit = true :=
    fun c hc => Nat.isDigit_of_mem_toDigits (by decide) (by decide) hc
  have htext (before : Char) (negative : Bool) (hsign : ([before], negative) ∈ exponentSigns) :=
    IsExponent.intro (Or.inl (Eq.refl 'e')) hsign hdigits Nat.toDigits_ne_nil
  by_cases hsign : place < 0
  · rw [if_pos hsign]
    have hminus := htext '-' true (by decide)
    rw [if_pos rfl, Nat.ofDigitChars_ten_toDigits] at hminus
    rwa [show -(place.natAbs : Int) = place by omega] at hminus
  · rw [if_neg hsign]
    have hplus := htext '+' false (by decide)
    rw [if_neg Bool.false_ne_true, Nat.ofDigitChars_ten_toDigits] at hplus
    rwa [show (place.natAbs : Int) = place by omega] at hplus

/-- A number is written as a text of it, with the decimal that reads back as it. -/
theorem isReal_magnitudeText (m : Magnitude) (negative : Bool) :
    IsReal (sign negative ++ numberStyle.magnitudeText m) (.finite negative m) := by
  have hback := of_decide_eq_true (m.readsBack_shortest .even)
  have hshort := m.shortest_cases .even
  unfold NumberStyle.magnitudeText
  simp only
  generalize hd : m.shortest numberStyle.tie = d
  change m.shortest .even = d at hd
  rw [hd] at hback hshort
  have hdenotes := ofDecimal_sign hback negative
  split
  · rcases d.exists_numeral with ⟨n, hchars, hnone, htrimmed, hsame⟩
    have hn := (hsame negative).trans hdenotes
    by_cases hfraction : d.exponent < 0
    · rw [if_pos hfraction, List.append_nil, ← hchars, ← hn]
      exact .pointed negative (htrimmed hshort) (by rw [ne_eq, hnone]; omega)
    · rcases n.exists_pointed (hnone.mpr (by omega)) with ⟨p, hp, hpoint, hwhole, hsame⟩
      have htrimmed : p.Trimmed := by
        unfold Numeral.Trimmed
        rw [hwhole]
        exact htrimmed hshort
      rw [if_neg hfraction, ← hchars, ← hn, ← hsame]
      show IsReal (sign negative ++ (n.chars ++ ['.', '0'])) _
      rw [← hp]
      exact .pointed negative htrimmed hpoint
  · rcases d.exists_mantissa with ⟨n, hone, hdigits, hscientific⟩
    have hdecimal : (⟨n.decimal.digits, n.decimal.exponent + d.leading⟩ : Decimal) = d := by
      have hlength := congrArg List.length hdigits
      rw [List.length_append, hone] at hlength
      have hexponent : -((n.fraction.getD []).length : Int) + d.leading = d.exponent := by
        unfold Decimal.leading
        omega
      show Decimal.mk (Nat.ofDigitChars 10 (n.whole ++ n.fraction.getD []) 0)
        (-((n.fraction.getD []).length : Int) + d.leading) = d
      rw [hexponent, hdigits, d.ofDigitChars_digitChars]
    rw [hscientific, ← hdenotes, ← congrArg (ofDecimal negative) hdecimal]
    exact .scaled negative (fun _ => hone) (isExponent_place d.leading)

end Json

end PortLogic
