import PortLogic.Number.Power
import PortLogic.Proofs.Number.Alike

/-!
# PortLogic.Proofs.Number.Power — powers rounded once keep what libraries promise

The power function that runs use (`Power.rounded`) has the laws of `LawfulPower`: any number to the
power zero is one, a zero to another power is a zero or infinite, and the powers of ten that
rounding to decimals uses are exact.
-/

namespace PortLogic

-- powers of naturals are the built-in ones, whatever algebra is in scope
attribute [local instance (2000)] instPowNat

namespace Number

variable {x y : Number}

theorem isNegative_of_neg (hx : x < 0) : x.isNegative = true := by
  rcases Magnitude.exists_zero with ⟨z, hz⟩
  rw [zero_eq hz] at hx
  cases x with
  | nan => cases hx
  | infinite => exact hx
  | finite negative m =>
    have hunits := (lt_iff_units rfl rfl).mp hx
    cases negative with
    | true => rfl
    | false =>
      simp [units, hz] at hunits
      omega

theorem isNegative_of_pos (hx : 0 < x) : x.isNegative = false := by
  rcases Magnitude.exists_zero with ⟨z, hz⟩
  rw [zero_eq hz] at hx
  cases x with
  | nan => cases hx
  | infinite negative =>
    cases negative with
    | true => cases hx
    | false => rfl
  | finite negative m =>
    have hunits := (lt_iff_units rfl rfl).mp hx
    cases negative with
    | true =>
      simp [units, hz] at hunits
      omega
    | false => rfl

/-- A number below or above zero is no zero and not undefined. -/
theorem beq_zero_of_lt (hx : x < 0 ∨ 0 < x) : (x == 0) = false ∧ x.isNaN = false := by
  rcases Magnitude.exists_zero with ⟨z, hz⟩
  rw [zero_eq hz] at hx ⊢
  cases x with
  | nan => rcases hx with hx | hx <;> cases hx
  | infinite => exact ⟨rfl, rfl⟩
  | finite negative m =>
    have hunits : (finite negative m).units ≠ (finite false z).units := by
      rcases hx with hx | hx
      · exact Int.ne_of_lt ((lt_iff_units rfl rfl).mp hx)
      · exact Int.ne_of_gt ((lt_iff_units rfl rfl).mp hx)
    refine ⟨?_, rfl⟩
    show ((finite negative m).units == (finite false z).units) = false
    exact beq_eq_false_iff_ne.mpr hunits

/-- Only the zeros are equal to zero. -/
theorem exists_of_beq_zero (hx : (x == 0) = true) :
    ∃ (negative : Bool) (m : Magnitude), x = .finite negative m ∧ m.units = 0 := by
  rcases Magnitude.exists_zero with ⟨z, hz⟩
  rw [zero_eq hz] at hx
  cases x with
  | nan => cases hx
  | infinite => cases hx
  | finite negative m =>
    rw [← zero_eq hz] at hx
    exact ⟨negative, m, rfl, finite_beq_zero.mp hx⟩

/-- A zero to a power other than zero is a zero, or infinite where the power is negative. -/
theorem exists_pow_of_zero (hx : (x == 0) = true) (hy : (y == 0) = false)
    (hdefined : y.isNaN = false) :
    ∃ sign, x.pow y = if y.isNegative then .infinite sign else round sign 0 1 := by
  have hone : (0 == (1 : Number)) = false := by decide +kernel
  have hcases : ¬(y == 0 || x == 1) = true := by
    rw [hy, beq_congr (alike_of_beq hx) (Alike.refl 1), hone]
    decide
  unfold pow
  rw [if_neg hcases]
  rcases exists_of_beq_zero hx with ⟨below, m, rfl, hm⟩
  cases y with
  | nan => cases hdefined
  | infinite down =>
    refine ⟨false, ?_⟩
    have habs : Alike (finite below m).abs 0 := by
      rw [zero_eq hm]
      exact Alike.refl _
    have hbelow : ¬(1 : Number) < (finite below m).abs := by
      rw [lt_iff_congr (Alike.refl 1) habs]
      decide +kernel
    simp only [beq_congr habs (Alike.refl 1), hone, decide_eq_false hbelow]
    cases down <;> rfl
  | finite down exponent =>
    refine ⟨below && (finite down exponent).isOdd, ?_⟩
    simp only [hm, if_true]
    rfl

theorem pow_of_beq_zero (x : Number) (hy : (y == 0) = true) : x.pow y = 1 := by
  unfold pow
  rw [hy, Bool.true_or, if_pos rfl]

theorem zero_pow_of_pos (hx : (x == 0) = true) (hy : 0 < y) : (x.pow y == 0) = true := by
  rcases beq_zero_of_lt (Or.inr hy) with ⟨hne, hdefined⟩
  rcases exists_pow_of_zero hx hne hdefined with ⟨sign, hpow⟩
  rw [hpow, isNegative_of_pos hy, if_neg Bool.false_ne_true]
  cases sign <;> decide +kernel

theorem zero_pow_of_neg (hx : (x == 0) = true) (hy : y < 0) : (x.pow y).isFinite = false := by
  rcases beq_zero_of_lt (Or.inl hy) with ⟨hne, hdefined⟩
  rcases exists_pow_of_zero hx hne hdefined with ⟨sign, hpow⟩
  rw [hpow, isNegative_of_neg hy, if_pos rfl]
  rfl

theorem zero_pow_of_nan (hx : (x == 0) = true) (hy : y.isNaN = true) : (x.pow y).isNaN = true := by
  rcases exists_of_beq_zero hx with ⟨below, m, rfl, -⟩
  have hone : (finite below m == 1) = false := by
    rw [beq_congr (alike_of_beq hx) (Alike.refl 1)]
    decide +kernel
  cases y with
  | nan negative payload =>
    unfold pow
    rw [hone]
    rfl
  | _ => cases hy

theorem ten_pow_ofNat {n : Nat} (hn : n ≤ 10) : (10 : Number).pow (ofNat n) = ofNat (10 ^ n) := by
  have hall : ∀ n ≤ 10, (10 : Number).pow (ofNat n) = ofNat (10 ^ n) := by decide +kernel
  exact hall n hn

end Number

instance : @LawfulPower Power.rounded :=
  let _ : Power := Power.rounded
  { pow_zero := fun x _ hy => Number.pow_of_beq_zero x hy
    zero_pow := Number.zero_pow_of_pos
    zero_pow_neg := Number.zero_pow_of_neg
    zero_pow_nan := Number.zero_pow_of_nan
    ten_pow := Number.ten_pow_ofNat }

end PortLogic
