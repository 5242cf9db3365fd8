import PortLogic.Number.Integral
import PortLogic.Proofs.Number.Order
import PortLogic.Time

/-!
# PortLogic.Proofs.Number.Whole — whole numbers and durations

Every natural number up to `2 ^ 53` is held exactly, and so is every duration between times below
that. Comparing with such a duration compares exact values: `Number.isAtMost` does it in the
integers, without a rounding.
-/

namespace PortLogic

-- powers of naturals are the built-in ones, whatever algebra is in scope
attribute [local instance (2000)] instPowNat

namespace Magnitude

variable {n : Nat}

theorem whole_lt_limit (h : n ≤ 2 ^ (53 : Nat)) : n * unitsPerOne < limit := by
  have hpow (a b : Nat) (hab : a < b) : 2 ^ a < 2 ^ b := Nat.pow_lt_pow_right Nat.one_lt_two hab
  have hplaces : 53 + binaryPlaces < 2098 := by
    unfold binaryPlaces
    omega
  refine Nat.lt_of_le_of_lt (Nat.mul_le_mul_right _ h) ?_
  unfold unitsPerOne limit
  rw [← Nat.pow_add]
  exact hpow _ 2098 hplaces

theorem exists_whole (h : n ≤ 2 ^ (53 : Nat)) : ∃ m : Magnitude, m.units = n * unitsPerOne :=
  ⟨⟨n * unitsPerOne, spacing_dvd_of_le binaryPlaces h, whole_lt_limit h⟩, rfl⟩

end Magnitude

namespace Number

variable {d : Number} {m n : Nat}

theorem round_units (negative : Bool) (m : Magnitude) :
    round negative m.units 1 = .finite negative m := by
  have hone := Magnitude.round?_mul_self m Nat.one_pos
  rw [Nat.mul_one] at hone
  rw [round, hone]

/-- The number of a natural number has its value exactly. -/
theorem exists_ofNat (h : n ≤ 2 ^ (53 : Nat)) :
    ∃ m : Magnitude, m.units = n * Magnitude.unitsPerOne ∧ ofNat n = .finite false m := by
  rcases Magnitude.exists_whole h with ⟨m, hm⟩
  refine ⟨m, hm, ?_⟩
  unfold ofNat
  rw [← hm, round_units]

theorem isFinite_ofNat (h : n ≤ 2 ^ (53 : Nat)) : (ofNat n).isFinite = true := by
  rcases exists_ofNat h with ⟨m, -, hnumber⟩
  rw [hnumber]
  rfl

theorem units_ofNat (h : n ≤ 2 ^ (53 : Nat)) :
    (ofNat n).units = (n * Magnitude.unitsPerOne : Nat) := by
  rcases exists_ofNat h with ⟨m, hm, hnumber⟩
  rw [hnumber, ← hm]
  rfl

/-- Whether a number is at most a natural number, both taken exactly. -/
def isAtMost (d : Number) (n : Nat) : Bool :=
  match d with
  | .nan .. => false
  | .infinite negative => negative
  | .finite .. => d.units ≤ n * Magnitude.unitsPerOne

/-- What is at most a natural number is at most every larger one. -/
theorem isAtMost_mono (h : m ≤ n) (hm : d.isAtMost m = true) : d.isAtMost n = true := by
  cases d with
  | nan a p => exact hm
  | infinite a => exact hm
  | finite a x =>
    have hle : m * Magnitude.unitsPerOne ≤ n * Magnitude.unitsPerOne := Nat.mul_le_mul_right _ h
    have hbound := of_decide_eq_true hm
    refine decide_eq_true (Int.le_trans hbound ?_)
    exact_mod_cast hle

theorem le_ofNat_iff (h : n ≤ 2 ^ (53 : Nat)) : d ≤ ofNat n ↔ d.isAtMost n = true := by
  cases d with
  | finite a x =>
    rw [le_iff_units rfl (isFinite_ofNat h), units_ofNat h, isAtMost, decide_eq_true_iff,
      Int.natCast_mul]
  | _ =>
    rcases exists_ofNat h with ⟨m, -, hnumber⟩
    show le _ (ofNat n) = true ↔ _
    rw [hnumber]
    simp [le, lt, beq, isAtMost]

/-- Whether a number of milliseconds is not below a duration, both taken exactly. A duration that is
undefined has passed at once. -/
def hasPassed (d : Number) (n : Nat) : Bool :=
  d.isNaN || d.isAtMost n

/-- A duration that has passed stays so. -/
theorem hasPassed_mono (h : m ≤ n) (hm : d.hasPassed m = true) : d.hasPassed n = true := by
  unfold hasPassed at hm ⊢
  rw [Bool.or_eq_true] at hm ⊢
  exact hm.imp_right (isAtMost_mono h)

theorem ofNat_lt_iff (h : n ≤ 2 ^ (53 : Nat)) : ofNat n < d ↔ d.hasPassed n = false := by
  cases d with
  | finite a x =>
    have hpassed : (finite a x).hasPassed n = (finite a x).isAtMost n := Bool.false_or _
    rw [lt_iff_units (isFinite_ofNat h) rfl, units_ofNat h, hpassed, isAtMost,
      decide_eq_false_iff_not, Int.not_le, Int.natCast_mul]
  | _ =>
    rcases exists_ofNat h with ⟨m, -, hnumber⟩
    show lt (ofNat n) _ = true ↔ _
    rw [hnumber]
    simp [lt, hasPassed, isNaN, isAtMost]

theorem wholePart_finite (negative : Bool) (m : Magnitude) :
    (finite negative m).wholePart =
      if negative then -((m.units / Magnitude.unitsPerOne : Nat) : Int)
      else (m.units / Magnitude.unitsPerOne : Nat) := by
  unfold wholePart units
  cases negative with
  | true => exact Int.neg_tdiv ..
  | false => rfl

theorem toNatWithin_finite (high : Nat) (negative : Bool) (m : Magnitude) :
    (finite negative m).toNatWithin high =
      if negative then 0 else Min.min high (m.units / Magnitude.unitsPerOne) := by
  show (Max.max 0 (Min.min (high : Int) (finite negative m).wholePart)).toNat = _
  rw [wholePart_finite]
  generalize m.units / Magnitude.unitsPerOne = whole
  cases negative with
  | true =>
    simp only [if_true]
    omega
  | false =>
    simp only [Bool.false_eq_true, if_false]
    omega

theorem toNatWithin_le (high : Nat) (x : Number) : x.toNatWithin high ≤ high := by
  cases x with
  | nan negative payload => exact Nat.zero_le high
  | infinite negative =>
    cases negative with
    | true => exact Nat.zero_le high
    | false => exact Nat.le_refl high
  | finite negative m =>
    rw [toNatWithin_finite]
    split
    · exact Nat.zero_le high
    · exact Nat.min_le_left _ _

theorem toNatWithin_one {high : Nat} (hhigh : 0 < high) : (1 : Number).toNatWithin high = 1 := by
  rcases exists_ofNat (n := 1) (by decide) with ⟨one, hone, hnumber⟩
  have hpos : 0 < Magnitude.unitsPerOne := Nat.two_pow_pos _
  show (ofNat 1).toNatWithin high = 1
  rw [hnumber, toNatWithin_finite, hone, Nat.one_mul, Nat.div_self hpos]
  exact Nat.min_eq_right hhigh

theorem finite_lt_one_iff (negative : Bool) (m : Magnitude) :
    finite negative m < 1 ↔ negative = true ∨ m.units < Magnitude.unitsPerOne := by
  have hpos : 0 < Magnitude.unitsPerOne := Nat.two_pow_pos _
  change finite negative m < ofNat 1 ↔ _
  rw [lt_iff_units rfl (isFinite_ofNat (by decide)), units_ofNat (by decide), Nat.one_mul, units]
  cases negative with
  | true =>
    simp only [if_true, true_or, iff_true]
    omega
  | false => simp

/-- The whole part of a number raised to one is its whole part raised to one. -/
theorem toNatWithin_max_one {high : Nat} (hhigh : 0 < high) (x : Number) :
    (x.max 1).toNatWithin high = Max.max 1 (x.toNatWithin high) := by
  rcases exists_ofNat (n := 1) (by decide) with ⟨one, -, hnumber⟩
  change (1 : Number) = _ at hnumber
  have hpart : (1 : Number).toNatWithin high = 1 := toNatWithin_one hhigh
  cases x with
  | nan negative payload =>
    have hmax : (nan negative payload).max 1 = 1 := by rw [hnumber]; rfl
    rw [hmax, hpart]
    exact (Nat.max_eq_left (Nat.zero_le 1)).symm
  | infinite negative =>
    cases negative with
    | true =>
      have hmax : (infinite true).max 1 = 1 := by rw [hnumber]; rfl
      rw [hmax, hpart]
      exact (Nat.max_eq_left (Nat.zero_le 1)).symm
    | false =>
      have hmax : (infinite false).max 1 = infinite false := by rw [hnumber]; rfl
      rw [hmax]
      exact (Nat.max_eq_right hhigh).symm
  | finite negative m =>
    have hmax : (finite negative m).max 1 =
        if finite negative m < 1 then 1 else finite negative m := by
      rw [hnumber]
      rfl
    rw [hmax]
    split
    · next hbelow =>
      rw [hpart, toNatWithin_finite]
      rcases (finite_lt_one_iff negative m).mp hbelow with rfl | hsmall
      · rfl
      · rw [Nat.div_eq_of_lt hsmall, Nat.min_zero, ite_self]
        rfl
    · next habove =>
      rw [finite_lt_one_iff, not_or, Bool.not_eq_true, Nat.not_lt] at habove
      have hwhole : 0 < m.units / Magnitude.unitsPerOne :=
        Nat.div_pos habove.2 (Nat.two_pow_pos _)
      rw [toNatWithin_finite, habove.1, if_neg Bool.false_ne_true]
      omega

end Number

/-- Between times below `2 ^ 53` a number is compared with the exact duration. -/
theorem le_elapsed_iff {d : Number} {since now : Nat} (h : now < 2 ^ (53 : Nat)) :
    d ≤ elapsed since now ↔ d.isAtMost (now - since) = true :=
  Number.le_ofNat_iff (by omega)

theorem elapsed_lt_iff {d : Number} {since now : Nat} (h : now < 2 ^ (53 : Nat)) :
    elapsed since now < d ↔ d.hasPassed (now - since) = false :=
  Number.ofNat_lt_iff (by omega)

end PortLogic
