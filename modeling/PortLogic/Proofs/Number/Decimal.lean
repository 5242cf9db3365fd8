import Mathlib.Data.List.Basic
import PortLogic.Number.Decimal
import PortLogic.Proofs.Number.Alike

/-!
# PortLogic.Proofs.Number.Decimal — what decimals denote

1. **Quotients**: the rounding of a quotient depends on its value only (`nearest_mul_left`), and far
   outside the range of the format it is zero or past the largest number.
2. **Decimals**: zeros at the end of the digits may be moved into the exponent
   (`ofDecimal_mul_pow`), and a decimal far outside the range denotes zero or an infinity.
3. **Numerals**: a decimal written out around the point is digits with digits after a point, and
   what is written denotes the decimal (`Decimal.exists_numeral`).
-/

namespace PortLogic

-- powers of naturals are the built-in ones, whatever algebra is in scope
attribute [local instance (2000)] instPowNat

/-! ## Quotients -/

namespace Magnitude

/-- A common factor does not change what a quotient is rounded to. -/
theorem nearest_mul_left {k : Nat} (hk : 0 < k) (num den : Nat) :
    nearest (k * num) (k * den) = nearest num den := by
  have hcompare (a b : Nat) : 2 * (k * a) < k * b ↔ 2 * a < b := by
    rw [Nat.mul_left_comm, Nat.mul_lt_mul_left hk]
  have htie (a b : Nat) : 2 * (k * a) = k * b ↔ 2 * a = b := by
    rw [Nat.mul_left_comm, Nat.mul_right_inj (Nat.ne_of_gt hk)]
  unfold nearest
  simp only
  rw [Nat.mul_div_mul_left _ _ hk, Nat.mul_assoc, Nat.mul_div_mul_left _ _ hk,
    Nat.mul_mod_mul_left]
  simp only [hcompare, htie]

/-- Less than half a unit is rounded to zero. -/
theorem nearest_eq_zero {num den : Nat} (h : 2 * num < den) : nearest num den = 0 := by
  have hlt : num < den := by omega
  have hstep : spacing (num / den) = 1 := by
    rw [Nat.div_eq_of_lt hlt]
    rfl
  unfold nearest
  simp only
  rw [hstep, Nat.mul_one, Nat.mod_eq_of_lt hlt, if_pos (Or.inl h), Nat.div_eq_of_lt hlt,
    Nat.zero_mul]

/-- A power of two is a bound that rounding keeps. -/
theorem two_pow_le_nearest {k num den : Nat} (hden : 0 < den) (h : 2 ^ k * den ≤ num) :
    2 ^ k ≤ nearest num den := by
  have hle : 2 ^ k ≤ num / den := (Nat.le_div_iff_mul_le hden).mpr h
  -- the multiple of the spacing below the quotient is not below the power either
  have hbelow : 2 ^ k ≤ num / (den * spacing (num / den)) * spacing (num / den) := by
    rw [← Nat.div_div_eq_div_mul]
    generalize num / den = n at hle ⊢
    have hn : n ≠ 0 := by
      have hpos : 0 < 2 ^ k := Nat.two_pow_pos k
      omega
    have hlog : k ≤ n.log2 := (Nat.le_log2 hn).mpr hle
    have hdvd : spacing n ∣ 2 ^ n.log2 := Nat.pow_dvd_pow 2 (Nat.sub_le ..)
    calc 2 ^ k ≤ 2 ^ n.log2 := Nat.pow_le_pow_right (by decide) hlog
      _ = 2 ^ n.log2 / spacing n * spacing n := (Nat.div_mul_cancel hdvd).symm
      _ ≤ n / spacing n * spacing n :=
        Nat.mul_le_mul_right _ (Nat.div_le_div_right (Nat.log2_self_le hn))
  unfold nearest
  simp only
  split
  · exact hbelow
  · exact Nat.le_trans hbelow (Nat.mul_le_mul_right _ (Nat.le_succ _))

end Magnitude

namespace Number

theorem round_mul_left (negative : Bool) {k : Nat} (hk : 0 < k) (num den : Nat) :
    round negative (k * num) (k * den) = round negative num den := by
  unfold round Magnitude.round?
  simp only [Magnitude.nearest_mul_left hk]

theorem round_eq_zero (negative : Bool) {num den : Nat} (h : 2 * num < den) :
    round negative num den = round negative 0 1 := by
  unfold round Magnitude.round?
  simp only [Magnitude.nearest_eq_zero h, Magnitude.nearest_zero]

theorem round_eq_infinite (negative : Bool) {num den : Nat} (hden : 0 < den)
    (h : Magnitude.limit * den ≤ num) : round negative num den = .infinite negative := by
  -- the exponent stays a variable, as the power itself is too large to look at
  obtain ⟨k, hk⟩ : ∃ k, 2098 = k := ⟨_, rfl⟩
  have hlimit : Magnitude.limit = 2 ^ k := by
    unfold Magnitude.limit
    rw [hk]
  have hpast : ¬Magnitude.nearest num den < Magnitude.limit := by
    rw [hlimit] at h ⊢
    exact Nat.not_lt.mpr (Magnitude.two_pow_le_nearest hden h)
  unfold round Magnitude.round?
  rw [dif_neg hpast]

/-! ## Decimals -/

theorem round?_of_round {num den : Nat} {m : Magnitude}
    (h : round false num den = .finite false m) : Magnitude.round? num den = some m := by
  unfold round at h
  cases hround : Magnitude.round? num den with
  | none =>
    rw [hround] at h
    cases h
  | some found =>
    rw [hround] at h
    cases h
    rfl

/-- The sign given to a decimal is the sign of the number. -/
theorem ofDecimal_sign {d : Decimal} {m : Magnitude} (h : ofDecimal false d = .finite false m)
    (negative : Bool) : ofDecimal negative d = .finite negative m := by
  unfold ofDecimal at h ⊢
  rw [round, round?_of_round h]

/-- A zero more at the end of the digits is one less in the exponent. -/
theorem ofDecimal_mul_ten (negative : Bool) (n : Nat) (e : Int) :
    ofDecimal negative ⟨10 * n, e - 1⟩ = ofDecimal negative ⟨n, e⟩ := by
  unfold ofDecimal
  simp only
  by_cases hwhole : 1 ≤ e
  · obtain ⟨k, rfl⟩ : ∃ k : Nat, e = k + 1 := ⟨(e - 1).toNat, by omega⟩
    have hpow : (k + 1 : Int).toNat = k + 1 := by omega
    have hless : (k + 1 - 1 : Int).toNat = k := by omega
    have hden : (-(k + 1 : Int)).toNat = 0 := by omega
    have hden' : (-(k + 1 - 1 : Int)).toNat = 0 := by omega
    rw [hpow, hless, hden, hden', Nat.pow_succ, Nat.mul_comm 10 n, Nat.mul_assoc n 10,
      Nat.mul_comm 10 (10 ^ k)]
  · obtain ⟨k, rfl⟩ : ∃ k : Nat, e = -k := ⟨(-e).toNat, by omega⟩
    have hpow : (-(k : Int)).toNat = 0 := by omega
    have hless : (-(k : Int) - 1).toNat = 0 := by omega
    have hden : (- -(k : Int)).toNat = k := by omega
    have hden' : (-(-(k : Int) - 1)).toNat = k + 1 := by omega
    rw [hpow, hless, hden, hden', Nat.pow_zero, Nat.mul_one, Nat.mul_one, Nat.mul_assoc,
      Nat.pow_succ, Nat.mul_comm (10 ^ k) 10, round_mul_left negative (by decide)]

/-- Zeros at the end of the digits may be moved into the exponent. -/
theorem ofDecimal_mul_pow (negative : Bool) (n k : Nat) (e : Int) :
    ofDecimal negative ⟨10 ^ k * n, e - k⟩ = ofDecimal negative ⟨n, e⟩ := by
  induction k with
  | zero => rw [Nat.pow_zero, Nat.one_mul, Int.natCast_zero, Int.sub_zero]
  | succ k ih =>
    have hexponent : e - ((k + 1 : Nat) : Int) = e - k - 1 := by omega
    rw [hexponent, Nat.pow_succ, Nat.mul_comm (10 ^ k) 10, Nat.mul_assoc, ofDecimal_mul_ten, ih]

theorem ofDecimal_zero {m : Magnitude} (hm : m.units = 0) (negative : Bool) (e : Int) :
    ofDecimal negative ⟨0, e⟩ = .finite negative m := by
  unfold ofDecimal
  simp only
  rw [Nat.zero_mul, Nat.zero_mul]
  exact round_zero hm negative _

/-- A decimal below the four hundredth place denotes zero. -/
theorem ofDecimal_of_small (negative : Bool) {n places : Nat} {e : Int} (hn : n < 10 ^ places)
    (he : e + places < -400) : ofDecimal negative ⟨n, e⟩ = round negative 0 1 := by
  obtain ⟨k, rfl⟩ : ∃ k : Nat, e = -k := ⟨(-e).toNat, by omega⟩
  have hpow : (-(k : Int)).toNat = 0 := by omega
  have hden : (- -(k : Int)).toNat = k := by omega
  unfold ofDecimal
  simp only
  rw [hpow, hden, Nat.pow_zero, Nat.mul_one]
  apply round_eq_zero
  obtain ⟨far, hfar, hunits⟩ : ∃ far, far = 400 ∧ 2 * Magnitude.unitsPerOne ≤ 10 ^ far := by
    refine ⟨400, rfl, ?_⟩
    unfold Magnitude.unitsPerOne Magnitude.binaryPlaces
    decide +kernel
  have hpos (k : Nat) : 0 < 10 ^ k := Nat.pow_pos (by decide)
  calc 2 * (n * Magnitude.unitsPerOne)
      = n * (2 * Magnitude.unitsPerOne) := Nat.mul_left_comm ..
    _ ≤ n * 10 ^ far := Nat.mul_le_mul_left n hunits
    _ < 10 ^ places * 10 ^ far := Nat.mul_lt_mul_of_pos_right hn (hpos far)
    _ = 10 ^ (places + far) := (Nat.pow_add ..).symm
    _ ≤ 10 ^ k := Nat.pow_le_pow_right (by decide) (by omega)

/-- A decimal above the four hundredth place denotes an infinity. -/
theorem ofDecimal_of_large (negative : Bool) {n : Nat} {e : Int} (hn : 0 < n) (he : 400 < e) :
    ofDecimal negative ⟨n, e⟩ = .infinite negative := by
  obtain ⟨k, rfl⟩ : ∃ k : Nat, e = k := ⟨e.toNat, by omega⟩
  have hden : (-(k : Int)).toNat = 0 := by omega
  unfold ofDecimal
  simp only
  rw [Int.toNat_natCast, hden, Nat.pow_zero]
  apply round_eq_infinite negative Nat.one_pos
  obtain ⟨far, hfar, hlimit⟩ :
      ∃ far, far = 400 ∧ Magnitude.limit ≤ 10 ^ far * Magnitude.unitsPerOne := by
    refine ⟨400, rfl, ?_⟩
    unfold Magnitude.limit Magnitude.unitsPerOne Magnitude.binaryPlaces
    decide +kernel
  have hpow : 10 ^ far ≤ n * 10 ^ k :=
    calc 10 ^ far ≤ 10 ^ k := Nat.pow_le_pow_right (by decide) (by omega)
      _ ≤ n * 10 ^ k := Nat.le_mul_of_pos_left _ hn
  calc Magnitude.limit * 1 = Magnitude.limit := Nat.mul_one _
    _ ≤ 10 ^ far * Magnitude.unitsPerOne := hlimit
    _ ≤ n * 10 ^ k * Magnitude.unitsPerOne := Nat.mul_le_mul_right _ hpow

end Number

/-- The decimal that a magnitude is written as has digits, or no exponent. -/
theorem Magnitude.shortest_cases (tie : Tie) (m : Magnitude) :
    (m.shortest tie).digits ≠ 0 ∨ (m.shortest tie).exponent = 0 := by
  by_cases hzero : m.units = 0
  · refine Or.inr ?_
    rw [shortest, if_pos hzero]
  · refine Or.inl fun hdigits => ?_
    rcases exists_zero with ⟨z, hz⟩
    have hback := of_decide_eq_true (m.readsBack_shortest tie)
    rw [show m.shortest tie = ⟨0, (m.shortest tie).exponent⟩ by rw [← hdigits],
      Number.ofDecimal_zero hz] at hback
    cases hback
    exact hzero hz

/-! ## Numerals -/

/-- Digits stand for less than the power of ten with as many zeros. -/
theorem ofDigitChars_lt {ds : List Char} (h : ∀ c ∈ ds, c.isDigit = true) :
    Nat.ofDigitChars 10 ds 0 < 10 ^ ds.length := by
  induction ds with
  | nil => decide
  | cons c ds ih =>
    have hrest := ih fun d hd => h d (List.mem_cons_of_mem c hd)
    have hdigit : c.toNat - '0'.toNat ≤ 9 := by
      have hle := (Bool.and_eq_true_iff.mp (h c List.mem_cons_self)).2
      have hnine : c.toNat ≤ 57 := of_decide_eq_true hle
      have hzero : '0'.toNat = 48 := rfl
      omega
    rw [Nat.ofDigitChars_cons, Nat.ofDigitChars_eq_ofDigitChars_zero, Nat.mul_zero, Nat.zero_add,
      List.length_cons, Nat.pow_succ]
    calc 10 ^ ds.length * (c.toNat - '0'.toNat) + Nat.ofDigitChars 10 ds 0
        < 10 ^ ds.length * (c.toNat - '0'.toNat) + 10 ^ ds.length := Nat.add_lt_add_left hrest _
      _ = 10 ^ ds.length * (c.toNat - '0'.toNat + 1) := (Nat.mul_succ ..).symm
      _ ≤ 10 ^ ds.length * 10 := Nat.mul_le_mul_left _ (by omega)

theorem isDigit_of_mem_zeros (n : Nat) : ∀ c ∈ List.replicate n '0', c.isDigit = true := by
  intro c hc
  rw [(List.mem_replicate.mp hc).2]
  decide

/-- The digits of a number other than zero do not start with a zero. -/
theorem head?_toDigits {n : Nat} (hn : n ≠ 0) : (Nat.toDigits 10 n).head? ≠ some '0' := by
  induction n using Nat.strongRecOn with
  | ind n ih =>
    by_cases hlt : n < 10
    · have hdigit : ∀ n < 10, n ≠ 0 → [n.digitChar].head? ≠ some '0' := by decide
      rw [Nat.toDigits_of_lt_base hlt]
      exact hdigit n hlt hn
    · rw [Nat.toDigits_of_base_le (by decide) (by omega),
        List.head?_append_of_ne_nil _ Nat.toDigits_ne_nil]
      exact ih (n / 10) (by omega) (by omega)

namespace Decimal

/-- What follows the whole digits: nothing, or a point and digits. -/
def pointed (fraction : Option (List Char)) : List Char :=
  (fraction.map ('.' :: ·)).getD []

/-- The decimal that digits around a point denote. -/
def ofDigits (whole fraction : List Char) : Decimal :=
  ⟨Nat.ofDigitChars 10 (whole ++ fraction) 0, -(fraction.length : Int)⟩

theorem isDigit_of_mem_pointed {fraction : Option (List Char)} {c : Char}
    (hdigits : ∀ c ∈ fraction.getD [], c.isDigit = true) (h : c ∈ pointed fraction) :
    c = '.' ∨ c.isDigit = true := by
  cases fraction with
  | none => cases h
  | some digits =>
    rcases List.mem_cons.mp h with hpoint | hdigit
    · exact Or.inl hpoint
    · exact Or.inr (hdigits c hdigit)

end Decimal

/-- Digits, and digits after a point when there is one. -/
structure Numeral where
  whole : List Char
  fraction : Option (List Char)
  whole_digits : ∀ c ∈ whole, c.isDigit = true
  whole_ne_nil : whole ≠ []
  fraction_digits : ∀ c ∈ fraction.getD [], c.isDigit = true
  fraction_ne_nil : fraction ≠ some []

namespace Numeral

/-- The characters of a numeral. -/
def chars (n : Numeral) : List Char :=
  n.whole ++ Decimal.pointed n.fraction

/-- The decimal that a numeral denotes. -/
def decimal (n : Numeral) : Decimal :=
  .ofDigits n.whole (n.fraction.getD [])

/-- No zero stands before the other whole digits. -/
def Trimmed (n : Numeral) : Prop :=
  n.whole.head? = some '0' → n.whole.length = 1

end Numeral

namespace Decimal

variable {d : Decimal}

theorem isDigit_of_mem_digitChars : ∀ c ∈ d.digitChars, c.isDigit = true :=
  fun _ hc => Nat.isDigit_of_mem_toDigits (by decide) (by decide) hc

theorem digitChars_ne_nil (d : Decimal) : d.digitChars ≠ [] :=
  Nat.toDigits_ne_nil

theorem head?_digitChars (h : d.digits ≠ 0) : d.digitChars.head? ≠ some '0' :=
  head?_toDigits h

theorem ofDigitChars_digitChars (d : Decimal) : Nat.ofDigitChars 10 d.digitChars 0 = d.digits :=
  Nat.ofDigitChars_toDigits (by decide) (by decide)

/-- The zeros after the digits of a whole number are its exponent. -/
theorem exists_numeral_of_whole (hwhole : (-d.exponent).toNat = 0) :
    ∃ n : Numeral, n.chars = d.digitChars ++ List.replicate d.exponent.toNat '0' ∧
      n.fraction = none ∧ (d.digits ≠ 0 ∨ d.exponent = 0 → n.Trimmed) ∧
      ∀ negative, Number.ofDecimal negative n.decimal = Number.ofDecimal negative d := by
  have hall : ∀ c ∈ d.digitChars ++ List.replicate d.exponent.toNat '0', c.isDigit = true := by
    intro c hc
    exact (List.mem_append.mp hc).elim (d.isDigit_of_mem_digitChars c) (isDigit_of_mem_zeros _ c)
  have hne : d.digitChars ++ List.replicate d.exponent.toNat '0' ≠ [] :=
    List.append_ne_nil_of_left_ne_nil d.digitChars_ne_nil _
  refine ⟨⟨_, none, hall, hne, by simp, by simp⟩, List.append_nil _, rfl, ?_, ?_⟩
  · intro hor (hhead : (d.digitChars ++ List.replicate d.exponent.toNat '0').head? = some '0')
    rw [List.head?_append_of_ne_nil _ d.digitChars_ne_nil] at hhead
    -- only the digits of zero start with a zero, and then there are no zeros after them
    have hdigits : d.digits = 0 := by
      by_contra hne
      exact head?_digitChars hne hhead
    have hexponent := hor.resolve_left (not_not.mpr hdigits)
    show (d.digitChars ++ List.replicate d.exponent.toNat '0').length = 1
    rw [digitChars, hdigits, hexponent]
    rfl
  · intro negative
    have hvalue : Nat.ofDigitChars 10
        (d.digitChars ++ List.replicate d.exponent.toNat '0' ++ []) 0 =
        10 ^ d.exponent.toNat * d.digits := by
      rw [List.append_nil, Nat.ofDigitChars_append, Nat.ofDigitChars_replicate_zero,
        d.ofDigitChars_digitChars]
    have hexponent : -(([] : List Char).length : Int) = d.exponent - d.exponent.toNat := by
      rw [List.length_nil]
      omega
    show Number.ofDecimal negative ⟨Nat.ofDigitChars 10
      (d.digitChars ++ List.replicate d.exponent.toNat '0' ++ []) 0,
      -(([] : List Char).length : Int)⟩ = _
    rw [hvalue, hexponent, Number.ofDecimal_mul_pow]

/-- The digits, after as many zeros as it takes to have one before the point. -/
def padded (d : Decimal) : List Char :=
  List.replicate ((-d.exponent).toNat + 1 - d.digitChars.length) '0' ++ d.digitChars

/-- How many of the padded digits stand before the point. -/
def point (d : Decimal) : Nat :=
  d.padded.length - (-d.exponent).toNat

theorem isDigit_of_mem_padded : ∀ c ∈ d.padded, c.isDigit = true := fun c hc =>
  (List.mem_append.mp hc).elim (isDigit_of_mem_zeros _ c) (d.isDigit_of_mem_digitChars c)

theorem ofDigitChars_padded (d : Decimal) : Nat.ofDigitChars 10 d.padded 0 = d.digits := by
  rw [padded, Nat.ofDigitChars_append, Nat.ofDigitChars_replicate_zero, Nat.mul_zero,
    d.ofDigitChars_digitChars]

theorem length_padded (d : Decimal) : d.padded.length =
    (-d.exponent).toNat + 1 - d.digitChars.length + d.digitChars.length := by
  rw [padded, List.length_append, List.length_replicate]

theorem length_take_padded (d : Decimal) : (d.padded.take d.point).length = d.point := by
  rw [List.length_take, point]
  omega

theorem point_pos (d : Decimal) : 0 < d.point := by
  have hlength := d.length_padded
  unfold point
  omega

theorem length_drop_padded (hfraction : d.exponent < 0) :
    -((d.padded.drop d.point).length : Int) = d.exponent := by
  have hlength := d.length_padded
  rw [List.length_drop, point]
  omega

/-- Only a single zero stands before the point. -/
theorem point_of_head? (hfraction : d.exponent < 0)
    (hhead : (d.padded.take d.point).head? = some '0') : d.point = 1 := by
  have hlength := d.length_padded
  by_cases hzeros : (-d.exponent).toNat + 1 - d.digitChars.length = 0
  · -- without zeros before them, the digits are those of a number other than zero
    exfalso
    have hdigits : d.digits ≠ 0 := by
      intro hzero
      rw [digitChars, hzero] at hzeros
      have hone : (Nat.toDigits 10 0).length = 1 := rfl
      omega
    rw [List.head?_take, if_neg (Nat.ne_of_gt d.point_pos), padded, hzeros, List.replicate_zero,
      List.nil_append] at hhead
    exact head?_digitChars hdigits hhead
  · unfold point
    omega

/-- Digits with zeros before them are cut so that as many stand after the point as the exponent
says. -/
theorem exists_numeral_of_fraction (hfraction : d.exponent < 0) :
    ∃ n : Numeral, n.chars = d.padded.take d.point ++ '.' :: d.padded.drop d.point ∧
      n.fraction ≠ none ∧ n.Trimmed ∧ n.decimal = d := by
  have hwhole : d.padded.take d.point ≠ [] := by
    rw [← List.length_pos_iff, length_take_padded]
    exact d.point_pos
  have hplaces := length_drop_padded hfraction
  have hsome : some (d.padded.drop d.point) ≠ some [] := by
    intro hempty
    rw [Option.some.inj hempty, List.length_nil] at hplaces
    omega
  refine ⟨⟨d.padded.take d.point, some (d.padded.drop d.point),
    fun c hc => isDigit_of_mem_padded c (List.mem_of_mem_take hc), hwhole,
    fun c hc => isDigit_of_mem_padded c (List.mem_of_mem_drop hc), hsome⟩, rfl, by simp, ?_, ?_⟩
  · intro (hhead : (d.padded.take d.point).head? = some '0')
    exact d.length_take_padded.trans (point_of_head? hfraction hhead)
  · show Decimal.mk (Nat.ofDigitChars 10 (d.padded.take d.point ++ d.padded.drop d.point) 0)
      (-((d.padded.drop d.point).length : Int)) = d
    rw [List.take_append_drop, ofDigitChars_padded, hplaces]

/-- A decimal written out around the point is a numeral that denotes it. It has a point when the
exponent is negative, and it starts with a superfluous zero only when it is a zero with an
exponent. -/
theorem exists_numeral (d : Decimal) :
    ∃ n : Numeral, n.chars = d.positional ∧ (n.fraction = none ↔ 0 ≤ d.exponent) ∧
      (d.digits ≠ 0 ∨ d.exponent = 0 → n.Trimmed) ∧
      ∀ negative, Number.ofDecimal negative n.decimal = Number.ofDecimal negative d := by
  unfold positional
  simp only
  by_cases hwhole : (-d.exponent).toNat = 0
  · rw [if_pos hwhole]
    rcases exists_numeral_of_whole hwhole with ⟨n, hchars, hnone, htrimmed, hdenotes⟩
    exact ⟨n, hchars, ⟨fun _ => by omega, fun _ => hnone⟩, htrimmed, hdenotes⟩
  · rw [if_neg hwhole]
    rcases exists_numeral_of_fraction (d := d) (by omega) with
      ⟨n, hchars, hsome, htrimmed, hdecimal⟩
    exact ⟨n, hchars, ⟨fun hnone => absurd hnone hsome, fun _ => by omega⟩, fun _ => htrimmed,
      fun _ => congrArg _ hdecimal⟩

/-- A decimal written with the place of its leading digit starts with a numeral of all its digits,
the first of them before the point. -/
theorem exists_mantissa (d : Decimal) :
    ∃ n : Numeral, n.whole.length = 1 ∧ n.whole ++ n.fraction.getD [] = d.digitChars ∧
      d.scientific = n.chars ++ 'e' :: (if d.leading < 0 then '-' else '+') ::
        Nat.toDigits 10 d.leading.natAbs := by
  have hdigits : ∀ c ∈ d.digitChars, c.isDigit = true := d.isDigit_of_mem_digitChars
  unfold scientific
  simp only
  split
  · next hnone => exact absurd hnone d.digitChars_ne_nil
  · next digit hone =>
    rw [hone] at hdigits ⊢
    exact ⟨⟨[digit], none, hdigits, by simp, by simp, by simp⟩, rfl, rfl, rfl⟩
  · next digit rest hrest hmore =>
    rw [hmore] at hdigits ⊢
    rcases List.forall_mem_cons.mp hdigits with ⟨hfirst, hfraction⟩
    exact ⟨⟨[digit], some rest, by simpa using hfirst, by simp, hfraction,
      fun h => hrest (Option.some.inj h)⟩, rfl, rfl, rfl⟩

end Decimal

namespace Numeral

variable {n : Numeral}

theorem isDigit_of_mem (n : Numeral) : ∀ c ∈ n.whole ++ n.fraction.getD [], c.isDigit = true :=
  fun c hc => (List.mem_append.mp hc).elim (n.whole_digits c) (n.fraction_digits c)

theorem exists_first (n : Numeral) : ∃ c cs, n.chars = c :: cs ∧ c.isDigit = true := by
  rcases List.exists_cons_of_ne_nil n.whole_ne_nil with ⟨c, cs, hcs⟩
  exact ⟨c, _, by rw [chars, hcs]; rfl, n.whole_digits c (hcs ▸ List.mem_cons_self)⟩

/-- A point and a zero after whole digits do not change what they denote. -/
theorem exists_pointed (hnone : n.fraction = none) :
    ∃ p : Numeral, p.chars = n.chars ++ ['.', '0'] ∧ p.fraction ≠ none ∧ p.whole = n.whole ∧
      ∀ negative, Number.ofDecimal negative p.decimal = Number.ofDecimal negative n.decimal := by
  refine ⟨⟨n.whole, some ['0'], n.whole_digits, n.whole_ne_nil, List.all_eq_true.mp rfl, by simp⟩,
    ?_, by simp, rfl, ?_⟩
  · unfold chars
    rw [hnone, List.append_assoc]
    rfl
  · intro negative
    have htenth : Decimal.ofDigits n.whole ['0'] =
        ⟨10 * Nat.ofDigitChars 10 n.whole 0, (0 : Int) - 1⟩ := by
      rw [Decimal.ofDigits, Nat.ofDigitChars_append, Nat.ofDigitChars_cons, Nat.ofDigitChars_nil]
      rfl
    have hwhole : n.decimal = ⟨Nat.ofDigitChars 10 n.whole 0, 0⟩ := by
      rw [decimal, hnone, Option.getD_none, Decimal.ofDigits, List.append_nil]
      rfl
    show Number.ofDecimal negative (Decimal.ofDigits n.whole ['0']) = _
    rw [htenth, hwhole, Number.ofDecimal_mul_ten]

end Numeral

end PortLogic
