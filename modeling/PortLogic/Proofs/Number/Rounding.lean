import Mathlib.Algebra.Order.Round
import PortLogic.Number.Rounding
import PortLogic.Proofs.Number.Rational

/-!
# PortLogic.Proofs.Number.Rounding — rounding to decimals, exactly

Rounding read over the rationals, where no step has an error of its own. Rounding to a fixed number
of decimals keeps the order, is odd and leaves its grid alone. The number of decimals that is worth
keeping changes only at whole numbers, and whole numbers are on every grid: between two numbers that
are rounded differently lies a number that neither rounding passes (`placesFor_eq_or_exists_int`).
So `roundByMagnitude` keeps the order across its grids and has nothing left to round in its own
results (`roundByMagnitude_keeps_order`). On 64-bit numbers, with the powers of ten of a library,
the rule chooses the same grid and the same whole number, and can differ from the exact one only by
what its product and its quotient round (`Number.isExact_roundByMagnitude`).
-/

namespace PortLogic

-- powers of naturals are the built-in ones, whatever algebra is in scope
attribute [local instance (2000)] instPowNat

namespace Decimals

section Steps

variable {α : Type} [Decimals α]

theorem roundTo_of_le (x : α) {places : Int} (hlow : 0 ≤ places) (hhigh : places ≤ maxPlaces) :
    roundTo x places = roundHalfAway (x * tenPow places) / tenPow places := by
  have hclamp : max (-maxPlaces) (min maxPlaces places) = places := by
    unfold maxPlaces at hhigh ⊢
    omega
  rw [roundTo, hclamp]

theorem placesFor_nonneg (x : α) : 0 ≤ placesFor x := by
  unfold placesFor
  split_ifs <;> decide

theorem placesFor_le (x : α) : placesFor x ≤ maxPlaces := by
  unfold placesFor
  split_ifs <;> decide

end Steps

variable {x y : ℚ} {places : Int}

/-! ## To the nearest whole number -/

theorem roundHalfAway_of_nonneg (h : 0 ≤ x) : roundHalfAway x = round x := by
  rw [round_eq]
  exact if_neg (not_lt.mpr h)

@[simp]
theorem roundHalfAway_neg (x : ℚ) : roundHalfAway (-x) = -roundHalfAway x := by
  have hnegative {y : ℚ} (h : y < 0) : roundHalfAway y = -roundHalfAway (-y) := by
    rw [roundHalfAway_of_nonneg (neg_nonneg.mpr h.le), round_eq]
    exact if_pos h
  rcases lt_trichotomy x 0 with h | rfl | h
  · rw [hnegative h, neg_neg]
  · rw [neg_zero, roundHalfAway_of_nonneg le_rfl, round_zero, Int.cast_zero, neg_zero]
  · rw [hnegative (neg_lt_zero.mpr h), neg_neg]

/-- The result is a whole number, no farther than a half. -/
theorem exists_roundHalfAway (x : ℚ) : ∃ n : ℤ, roundHalfAway x = n ∧ |(n : ℚ) - x| ≤ 1 / 2 := by
  rcases le_total 0 x with h | h
  · refine ⟨round x, roundHalfAway_of_nonneg h, ?_⟩
    rw [abs_sub_comm]
    exact abs_sub_round x
  · refine ⟨-round (-x), ?_, ?_⟩
    · rw [← neg_neg x, roundHalfAway_neg, roundHalfAway_of_nonneg (neg_nonneg.mpr h), neg_neg,
        Int.cast_neg]
    · rw [Int.cast_neg, neg_sub_left, abs_neg, add_comm, ← sub_neg_eq_add, abs_sub_comm]
      exact abs_sub_round (-x)

/-- No whole number is passed. -/
theorem roundHalfAway_le {n : ℤ} (h : x ≤ n) : roundHalfAway x ≤ n := by
  rcases exists_roundHalfAway x with ⟨m, hm, hnear⟩
  rw [abs_le] at hnear
  rw [hm]
  have hlt : (m : ℚ) < n + 1 := by linarith
  exact_mod_cast Int.lt_add_one_iff.mp (by exact_mod_cast hlt)

theorem roundHalfAway_mono (h : x ≤ y) : roundHalfAway x ≤ roundHalfAway y := by
  rcases exists_roundHalfAway x with ⟨m, hm, hx⟩
  rcases exists_roundHalfAway y with ⟨n, hn, hy⟩
  rw [abs_le] at hx hy
  by_contra hgt
  rw [not_le, hm, hn] at hgt
  -- whole numbers the wrong way round are one apart, which leaves nothing between the rounded ones
  have hstep : (n : ℚ) + 1 ≤ m := by exact_mod_cast hgt
  have heq : x = y := by linarith
  rw [← hm, ← hn, heq] at hgt
  exact lt_irrefl _ hgt

@[simp]
theorem roundHalfAway_intCast (n : ℤ) : roundHalfAway (n : ℚ) = n := by
  refine le_antisymm (roundHalfAway_le le_rfl) ?_
  have hneg : roundHalfAway (-n : ℚ) ≤ (-n : ℤ) := roundHalfAway_le (by simp)
  rw [roundHalfAway_neg, Int.cast_neg] at hneg
  exact neg_le_neg_iff.mp hneg

/-! ## To a number of decimals -/

/-- The distance between neighbours on the grid of a number of decimals. -/
def grid (places : Int) : ℚ :=
  (10 : ℚ) ^ (-(max (-maxPlaces) (min maxPlaces places)))

theorem grid_pos (places : Int) : 0 < grid places := by
  unfold grid
  exact zpow_pos (by norm_num) _

theorem roundTo_eq (x : ℚ) (places : Int) :
    roundTo x places = roundHalfAway (x / grid places) * grid places := by
  unfold grid
  rw [zpow_neg, div_inv_eq_mul, ← div_eq_mul_inv]
  rfl

@[simp]
theorem roundTo_neg (x : ℚ) (places : Int) : roundTo (-x) places = -roundTo x places := by
  rw [roundTo_eq, roundTo_eq, neg_div, roundHalfAway_neg, neg_mul]

theorem roundTo_mono (h : x ≤ y) (places : Int) : roundTo x places ≤ roundTo y places := by
  rw [roundTo_eq, roundTo_eq]
  have hpos := grid_pos places
  have hscaled : x / grid places ≤ y / grid places := by gcongr
  exact mul_le_mul_of_nonneg_right (roundHalfAway_mono hscaled) hpos.le

/-- A multiple of the grid is left alone. -/
theorem roundTo_mul_grid (n : ℤ) (places : Int) :
    roundTo (n * grid places) places = n * grid places := by
  rw [roundTo_eq, mul_div_cancel_right₀ _ (grid_pos places).ne', roundHalfAway_intCast]

theorem exists_roundTo (x : ℚ) (places : Int) : ∃ n : ℤ, roundTo x places = n * grid places := by
  rcases exists_roundHalfAway (x / grid places) with ⟨n, hn, -⟩
  exact ⟨n, by rw [roundTo_eq, hn]⟩

theorem abs_roundTo_sub_le (x : ℚ) (places : Int) : |roundTo x places - x| ≤ grid places / 2 := by
  have hpos := grid_pos places
  rcases exists_roundHalfAway (x / grid places) with ⟨n, hn, hnear⟩
  have hdistance : roundTo x places - x = (n - x / grid places) * grid places := by
    rw [roundTo_eq, hn, sub_mul, div_mul_cancel₀ _ hpos.ne']
  rw [hdistance, abs_mul, abs_of_pos hpos]
  linarith [mul_le_mul_of_nonneg_right hnear hpos.le]

/-- Whole numbers are on the grid of every number of decimals. -/
theorem roundTo_intCast (hplaces : 0 ≤ places) (n : ℤ) : roundTo (n : ℚ) places = n := by
  have hpower : ∃ k : ℕ, grid places = ((10 : ℚ) ^ k)⁻¹ := by
    refine ⟨(min maxPlaces places).toNat, ?_⟩
    have hmin : max (-maxPlaces) (min maxPlaces places) = (min maxPlaces places).toNat := by
      unfold maxPlaces
      omega
    rw [grid, hmin, zpow_neg, zpow_natCast]
  rcases hpower with ⟨k, hk⟩
  have hmultiple : (n : ℚ) = (n * 10 ^ k : ℤ) * grid places := by
    rw [hk]
    push_cast
    field_simp
  rw [hmultiple]
  exact roundTo_mul_grid _ places

/-! ## By magnitude -/

theorem atLeast_iff {n : Nat} : atLeast x n = true ↔ (n : ℚ) ≤ |x| := by
  have habs : (if x < 0 then -x else x) = |x| := by
    split_ifs with h
    · exact (abs_of_neg h).symm
    · exact (abs_of_nonneg (not_lt.mp h)).symm
  rw [← habs]
  exact decide_eq_true_iff

@[simp]
theorem placesFor_neg (x : ℚ) : placesFor (-x) = placesFor x := by
  have h (n : Nat) : atLeast (-x) n = atLeast x n := by
    rw [Bool.eq_iff_iff, atLeast_iff, atLeast_iff, abs_neg]
  unfold placesFor
  simp only [h]

/-- Where no whole number lies between two numbers, the same number of decimals is kept. -/
theorem placesFor_eq_or_exists_int (h : x ≤ y) :
    placesFor x = placesFor y ∨ ∃ n : ℤ, x ≤ n ∧ n ≤ y := by
  by_cases hbetween : ∃ n : ℤ, x ≤ n ∧ n ≤ y
  · exact Or.inr hbetween
  have hside (n : ℤ) : (n : ℚ) ≤ x ↔ (n : ℚ) ≤ y := by
    refine ⟨fun hn => hn.trans h, fun hn => ?_⟩
    by_contra hx
    exact hbetween ⟨n, (not_le.mp hx).le, hn⟩
  have hopposite (n : ℤ) : x ≤ n ↔ y ≤ n := by
    refine ⟨fun hn => ?_, fun hn => h.trans hn⟩
    by_contra hy
    exact hbetween ⟨n, hn, (not_le.mp hy).le⟩
  have hat (n : Nat) : atLeast x n = atLeast y n := by
    have hneg (z : ℚ) : (n : ℚ) ≤ -z ↔ z ≤ (-n : ℤ) := by
      push_cast
      exact le_neg
    rw [Bool.eq_iff_iff, atLeast_iff, atLeast_iff, le_abs, le_abs, hneg, hneg]
    exact or_congr (hside n) (hopposite (-n))
  left
  unfold placesFor
  simp only [hat]

/-- Whole numbers are left alone. -/
@[simp]
theorem roundByMagnitude_intCast (n : ℤ) : roundByMagnitude (n : ℚ) = n :=
  roundTo_intCast (placesFor_nonneg _) n

@[simp]
theorem roundByMagnitude_neg (x : ℚ) : roundByMagnitude (-x) = -roundByMagnitude x := by
  rw [roundByMagnitude, placesFor_neg, roundTo_neg, roundByMagnitude]

theorem roundByMagnitude_mono (h : x ≤ y) : roundByMagnitude x ≤ roundByMagnitude y := by
  rcases placesFor_eq_or_exists_int h with hplaces | ⟨n, hx, hy⟩
  · rw [roundByMagnitude, roundByMagnitude, hplaces]
    exact roundTo_mono h _
  · -- the whole number between them is on both grids
    calc roundByMagnitude x ≤ roundTo (n : ℚ) (placesFor x) := roundTo_mono hx _
      _ = n := roundTo_intCast (placesFor_nonneg x) n
      _ = roundTo (n : ℚ) (placesFor y) := (roundTo_intCast (placesFor_nonneg y) n).symm
      _ ≤ roundByMagnitude y := roundTo_mono hy _

/-- The result of a rounding is left alone, on whichever grid it is rounded next. -/
theorem roundByMagnitude_idem (x : ℚ) :
    roundByMagnitude (roundByMagnitude x) = roundByMagnitude x := by
  have hwhole {n : ℤ} (h : roundByMagnitude x = n) :
      roundByMagnitude (roundByMagnitude x) = roundByMagnitude x := by
    rw [h, roundByMagnitude_intCast]
  have hsame (h : placesFor (roundByMagnitude x) = placesFor x) :
      roundByMagnitude (roundByMagnitude x) = roundByMagnitude x := by
    rcases exists_roundTo x (placesFor x) with ⟨n, hn⟩
    change roundByMagnitude x = _ at hn
    rw [roundByMagnitude, h, hn, roundTo_mul_grid]
  rcases le_total x (roundByMagnitude x) with hup | hdown
  · rcases placesFor_eq_or_exists_int hup with hplaces | ⟨n, hx, hn⟩
    · exact hsame hplaces.symm
    · have hle := roundByMagnitude_mono hx
      rw [roundByMagnitude_intCast] at hle
      exact hwhole (le_antisymm hle hn)
  · rcases placesFor_eq_or_exists_int hdown with hplaces | ⟨n, hn, hx⟩
    · exact hsame hplaces
    · have hle := roundByMagnitude_mono hx
      rw [roundByMagnitude_intCast] at hle
      exact hwhole (le_antisymm hn hle)

/-- The last decimal that is kept at the size of a number. -/
def lastDecimal (x : ℚ) : ℚ :=
  if 1000 ≤ |x| then 1
  else if 100 ≤ |x| then 0.1
  else if 10 ≤ |x| then 0.01
  else if 1 ≤ |x| then 0.001
  else 0.0001

theorem grid_placesFor (x : ℚ) : grid (placesFor x) = lastDecimal x := by
  unfold placesFor lastDecimal
  simp only [atLeast_iff]
  push_cast
  split_ifs <;> norm_num [grid, maxPlaces]

/-- Rounding by magnitude keeps the order, is odd, has nothing left to round in its own results, and
moves a number by at most half of the last decimal kept. -/
theorem roundByMagnitude_keeps_order :
    (Monotone fun x : ℚ => roundByMagnitude x) ∧
      (∀ x : ℚ, roundByMagnitude (-x) = -roundByMagnitude x) ∧
      (∀ x : ℚ, roundByMagnitude (roundByMagnitude x) = roundByMagnitude x) ∧
      ∀ x : ℚ, |roundByMagnitude x - x| ≤ lastDecimal x / 2 := by
  refine ⟨fun _ _ h => roundByMagnitude_mono h, roundByMagnitude_neg, roundByMagnitude_idem, ?_⟩
  intro x
  rw [← grid_placesFor]
  exact abs_roundTo_sub_le x (placesFor x)

/-- A number just below a hundred is rounded onto it, past where the coarser grid begins. -/
example : placesFor (99.996 : ℚ) = 2 ∧ roundByMagnitude (99.996 : ℚ) = 100 ∧
    placesFor (100 : ℚ) = 1 := by
  decide +kernel

end Decimals

/-! ## The rule on numbers -/

namespace Number

open Decimals (placesFor roundByMagnitude tenPow)

variable {x : Number}

/-- The nearest whole number of ones is held: below `2 ^ 53` all are, and from there on a number is
whole itself. -/
theorem exists_nearest_ones (m : Magnitude) :
    ∃ whole : Magnitude, whole.units =
      (2 * m.units + Magnitude.unitsPerOne) / (2 * Magnitude.unitsPerOne) *
        Magnitude.unitsPerOne := by
  have hpos : 0 < Magnitude.unitsPerOne := Nat.two_pow_pos _
  by_cases hlarge : 2 ^ (53 : Nat) * Magnitude.unitsPerOne ≤ m.units
  · rcases Magnitude.unitsPerOne_dvd m hlarge with ⟨n, hn⟩
    refine ⟨m, ?_⟩
    have hquotient : (2 * m.units + Magnitude.unitsPerOne) / (2 * Magnitude.unitsPerOne) = n := by
      rw [hn, ← Nat.mul_assoc, Nat.add_comm, Nat.add_mul_div_left _ _ (by omega),
        Nat.div_eq_of_lt (by omega), Nat.zero_add]
    rw [hquotient, hn, Nat.mul_comm]
  · refine Magnitude.exists_whole ?_
    rw [Nat.div_le_iff_le_mul (by omega)]
    omega

/-- Rounding to a whole number is never rounded again. -/
theorem isExact_roundHalfAway (hx : x.isFinite = true) :
    IsExact x.roundHalfAway (Decimals.roundHalfAway x.exact) := by
  cases x with
  | finite negative m =>
    rcases exists_nearest_ones m with ⟨whole, hwhole⟩
    have hnearest : Decimals.roundHalfAway ((m.units : ℚ) / Magnitude.unitsPerOne) =
        ((2 * m.units + Magnitude.unitsPerOne) / (2 * Magnitude.unitsPerOne) : Nat) := by
      have hhalf : (m.units : ℚ) / Magnitude.unitsPerOne + 1 / 2 =
          (2 * m.units + Magnitude.unitsPerOne : Nat) / (2 * Magnitude.unitsPerOne : Nat) := by
        have hpos := unitsPerOne_pos
        push_cast
        field_simp
      rw [Decimals.roundHalfAway_of_nonneg (by positivity), round_eq, hhalf,
        Rat.floor_natCast_div_natCast]
      norm_cast
    rw [exact_finite]
    cases negative with
    | true =>
      rw [if_pos rfl, Decimals.roundHalfAway_neg, hnearest]
      exact isExact_round hwhole
    | false =>
      rw [if_neg Bool.false_ne_true, hnearest]
      exact isExact_round hwhole
  | _ => cases hx

theorem mul_one_of_isFinite (hx : x.isFinite = true) : x * ofNat 1 = x := by
  rcases exists_ofNat (n := 1) (by decide) with ⟨one, hone, hnumber⟩
  have hpos : 0 < Magnitude.unitsPerOne := Nat.two_pow_pos _
  cases x with
  | finite negative m =>
    rw [hnumber]
    show round (negative ^^ false) (m.units * one.units) Magnitude.unitsPerOne = _
    rw [hone, Nat.one_mul, round, Magnitude.round?_mul_self m hpos, Bool.xor_false]
  | _ => cases hx

theorem div_one_of_isFinite (hx : x.isFinite = true) : x / ofNat 1 = x := by
  rcases exists_ofNat (n := 1) (by decide) with ⟨one, hone, hnumber⟩
  have hpos : 0 < Magnitude.unitsPerOne := Nat.two_pow_pos _
  cases x with
  | finite negative m =>
    rw [hnumber]
    show div (finite negative m) (finite false one) = _
    rw [div, hone, Nat.one_mul, if_neg (Nat.ne_of_gt hpos), round,
      Magnitude.round?_mul_self m hpos, Bool.xor_false]
  | _ => cases hx

variable [Power]

/-- As many decimals are kept of a number as of the rational that it stands for. -/
theorem placesFor_exact (hx : x.isFinite = true) : placesFor x = placesFor x.exact := by
  have hat {n : Nat} (hn : n ≤ 2 ^ (53 : Nat)) :
      Decimals.atLeast x n = Decimals.atLeast x.exact n := by
    have hbound := isExact_ofNat hn
    have habs : x.abs.isFinite = true := by
      cases x with
      | finite => rfl
      | _ => cases hx
    rw [Bool.eq_iff_iff, Decimals.atLeast_iff, ← exact_abs, ← hbound.2,
      exact_le_iff hbound.1 habs]
    exact decide_eq_true_iff
  unfold placesFor
  rw [hat (by decide), hat (by decide), hat (by decide), hat (by decide)]

variable [LawfulPower]

theorem tenPow_natCast {n : Nat} (hn : n ≤ 10) : (tenPow (n : Int) : Number) = ofNat (10 ^ n) := by
  have hexponent : ofInt (n : Int) = ofNat n := by
    have hsign : decide ((n : Int) < 0) = false := decide_eq_false (by omega)
    rw [ofInt, hsign, Int.natAbs_natCast, ofNat]
  show Power.pow 10 (ofInt (n : Int)) = _
  rw [hexponent, LawfulPower.ten_pow hn]

theorem isExact_tenPow {places : Int} (hlow : 0 ≤ places) (hhigh : places ≤ Decimals.maxPlaces) :
    IsExact (tenPow places) (10 ^ places) := by
  obtain ⟨k, rfl⟩ := Int.eq_ofNat_of_zero_le hlow
  have hk : k ≤ 10 := by
    unfold Decimals.maxPlaces at hhigh
    omega
  have hbound : 10 ^ k ≤ 2 ^ (53 : Nat) :=
    Nat.le_trans (Nat.pow_le_pow_right (by decide) hk) (by decide)
  have hexact := isExact_ofNat hbound
  rw [tenPow_natCast hk, zpow_natCast]
  exact_mod_cast hexact

/-- Rounding by magnitude differs from the exact rule in the product and the quotient alone: where
these are held as they are, so is the result. -/
theorem isExact_roundByMagnitude (hx : x.isFinite = true)
    (hproduct :
      IsExact (x * tenPow (placesFor x)) (x.exact * (tenPow (placesFor x) : Number).exact))
    (hquotient : IsExact ((x * tenPow (placesFor x)).roundHalfAway / tenPow (placesFor x))
      ((x * tenPow (placesFor x)).roundHalfAway.exact / (tenPow (placesFor x) : Number).exact)) :
    IsExact (roundByMagnitude x) (roundByMagnitude x.exact) := by
  have hfactor : (tenPow (placesFor x) : Number).exact = 10 ^ placesFor x :=
    (isExact_tenPow (Decimals.placesFor_nonneg x) (Decimals.placesFor_le x)).2
  have hwhole := isExact_roundHalfAway hproduct.1
  have hrule : roundByMagnitude x.exact =
      Decimals.roundHalfAway (x.exact * 10 ^ placesFor x) / 10 ^ placesFor x := by
    rw [roundByMagnitude, Decimals.roundTo_of_le _ (Decimals.placesFor_nonneg _)
      (Decimals.placesFor_le _), ← placesFor_exact hx]
    rfl
  rw [hwhole.2, hproduct.2, hfactor] at hquotient
  rw [hrule, roundByMagnitude, Decimals.roundTo_of_le _ (Decimals.placesFor_nonneg x)
    (Decimals.placesFor_le x)]
  exact hquotient

/-- From a thousand on no step of the rule is rounded. -/
theorem isExact_roundByMagnitude_of_large (hx : x.isFinite = true) (hlarge : ofNat 1000 ≤ x.abs) :
    IsExact (roundByMagnitude x) (roundByMagnitude x.exact) := by
  have hplaces : placesFor x = 0 := if_pos (decide_eq_true hlarge)
  have hone : (tenPow (placesFor x) : Number) = ofNat 1 := by
    rw [hplaces]
    exact tenPow_natCast (Nat.zero_le 10)
  have hfactor : (ofNat 1).exact = 1 := by
    have hexact : IsExact (ofNat 1) (1 : Nat) := isExact_ofNat (by decide)
    simpa using hexact.2
  refine isExact_roundByMagnitude hx ?_ ?_
  · rw [hone, mul_one_of_isFinite hx, hfactor, mul_one]
    exact ⟨hx, rfl⟩
  · have hwhole := isExact_roundHalfAway hx
    rw [hone, mul_one_of_isFinite hx, div_one_of_isFinite hwhole.1, hfactor, div_one]
    exact ⟨hwhole.1, rfl⟩

end Number

end PortLogic
