import Mathlib.Data.Rat.Floor
import PortLogic.Proofs.Number.Whole

/-!
# PortLogic.Proofs.Number.Rational — the rational that a number stands for

A finite number stands for a rational, its units over those of one (`Number.exact`). Comparing
finite numbers compares these rationals, changing or dropping the sign does so to them, and natural
numbers up to `2 ^ 53` stand for themselves. From there on every number is whole
(`Magnitude.unitsPerOne_dvd`).
-/

namespace PortLogic

-- powers of naturals are the built-in ones, whatever algebra is in scope
attribute [local instance (2000)] instPowNat

namespace Magnitude

/-- From `2 ^ 53` on all numbers are whole. -/
theorem unitsPerOne_dvd (m : Magnitude) (h : 2 ^ (53 : Nat) * unitsPerOne ≤ m.units) :
    unitsPerOne ∣ m.units := by
  have hpow : 2 ^ (53 + binaryPlaces) ≤ m.units := by
    rwa [Nat.pow_add]
  have hne : m.units ≠ 0 := by
    have hpos : 0 < 2 ^ (53 + binaryPlaces) := Nat.two_pow_pos _
    omega
  have hlog : 53 + binaryPlaces ≤ m.units.log2 := (Nat.le_log2 hne).mpr hpow
  have hspacing : unitsPerOne ∣ spacing m.units := Nat.pow_dvd_pow 2 (by omega)
  exact Nat.dvd_trans hspacing m.spacing_dvd

end Magnitude

namespace Number

/-- The rational that a finite number stands for. -/
def exact (x : Number) : ℚ :=
  x.units / Magnitude.unitsPerOne

/-- A finite number that stands for a rational. -/
def IsExact (x : Number) (q : ℚ) : Prop :=
  x.isFinite = true ∧ x.exact = q

variable {x y : Number} {n : Nat}

theorem unitsPerOne_pos : (0 : ℚ) < Magnitude.unitsPerOne := by
  exact_mod_cast Nat.two_pow_pos Magnitude.binaryPlaces

/-! ## Order and signs -/

theorem exact_lt_iff (hx : x.isFinite = true) (hy : y.isFinite = true) :
    x.exact < y.exact ↔ x < y := by
  rw [lt_iff_units hx hy, exact, exact, div_lt_div_iff_of_pos_right unitsPerOne_pos, Int.cast_lt]

theorem exact_le_iff (hx : x.isFinite = true) (hy : y.isFinite = true) :
    x.exact ≤ y.exact ↔ x ≤ y := by
  rw [le_iff_units hx hy, exact, exact, div_le_div_iff_of_pos_right unitsPerOne_pos, Int.cast_le]

theorem exact_finite (negative : Bool) (m : Magnitude) :
    (finite negative m).exact =
      if negative then -((m.units : ℚ) / Magnitude.unitsPerOne)
      else m.units / Magnitude.unitsPerOne := by
  unfold exact units
  cases negative <;> simp [neg_div]

theorem exact_abs (x : Number) : x.abs.exact = |x.exact| := by
  have hpos := unitsPerOne_pos
  cases x with
  | finite negative m =>
    have hnonneg : (0 : ℚ) ≤ m.units / Magnitude.unitsPerOne := by positivity
    rw [abs, exact_finite, exact_finite]
    cases negative <;> simp [abs_of_nonneg hnonneg]
  | _ => simp [exact, abs, units]

/-! ## Whole numbers -/

/-- A whole number of ones that the format holds. -/
theorem isExact_round {negative : Bool} {m : Magnitude} (hm : m.units = n * Magnitude.unitsPerOne) :
    IsExact (round negative (n * Magnitude.unitsPerOne) 1) (if negative then -n else n) := by
  rw [← hm, round_units]
  refine ⟨rfl, ?_⟩
  rw [exact_finite, hm, Nat.cast_mul, mul_div_cancel_right₀ _ unitsPerOne_pos.ne']

theorem isExact_ofNat (h : n ≤ 2 ^ (53 : Nat)) : IsExact (ofNat n) n := by
  rcases Magnitude.exists_whole h with ⟨m, hm⟩
  exact isExact_round hm

end Number

end PortLogic
