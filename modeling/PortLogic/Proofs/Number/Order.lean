import PortLogic.Number.Basic

/-!
# PortLogic.Proofs.Number.Order — how numbers are compared

Finite numbers are compared by their units (`lt_iff_units`, `le_iff_units`). Sorting compares
numbers by a total order: `totalLe` compares pairs of integers, first the *band* of a number
(undefined, infinite or finite) and then its *place* within the band. So it is transitive and total,
no two numbers are equal in it, and on numbers that are not undefined it refines the numeric order.
-/

namespace PortLogic

namespace Number

variable {x y z : Number}

/-! ## Finite numbers -/

theorem isNaN_of_isFinite (hx : x.isFinite = true) : x.isNaN = false := by
  cases x with
  | nan => cases hx
  | _ => rfl

theorem lt_iff_units (hx : x.isFinite = true) (hy : y.isFinite = true) :
    x < y ↔ x.units < y.units := by
  cases x with
  | finite a m =>
    cases y with
    | finite b n => exact decide_eq_true_iff
    | _ => cases hy
  | _ => cases hx

theorem le_iff_units (hx : x.isFinite = true) (hy : y.isFinite = true) :
    x ≤ y ↔ x.units ≤ y.units := by
  cases x with
  | finite a m =>
    cases y with
    | finite b n =>
      show le _ _ = true ↔ _
      simp only [le, lt, beq, Bool.or_eq_true, decide_eq_true_eq, beq_iff_eq]
      omega
    | _ => cases hy
  | _ => cases hx

/-! ## Defined numbers -/

/-- Numbers are ordered in a line, apart from the undefined ones. -/
theorem le_of_not_lt (hx : x.isNaN = false) (hy : y.isNaN = false) (h : ¬x < y) : y ≤ x := by
  change ¬lt x y = true at h
  show (lt y x || beq y x) = true
  cases x with
  | nan => cases hx
  | infinite a =>
    cases y with
    | nan => cases hy
    | infinite b => cases a <;> cases b <;> simp_all [lt, beq]
    | finite => simpa [lt, beq] using h
  | finite =>
    cases y with
    | nan => cases hy
    | infinite b => simpa [lt, beq] using h
    | finite => exact (le_iff_units rfl rfl).mpr (Int.not_lt.mp (mt (lt_iff_units rfl rfl).mpr h))

theorem neg_or_zero_or_pos (hx : x.isNaN = false) : x < 0 ∨ (x == 0) = true ∨ 0 < x := by
  by_cases hpos : 0 < x
  · exact Or.inr (Or.inr hpos)
  · have hle : x ≤ 0 := le_of_not_lt (by decide +kernel) hx hpos
    change (lt x 0 || beq x 0) = true at hle
    rcases Bool.or_eq_true_iff.mp hle with hneg | hzero
    · exact Or.inl hneg
    · exact Or.inr (Or.inl hzero)

theorem isFinite_of_isNaN (hx : x.isNaN = true) : x.isFinite = false := by
  cases x with
  | nan => rfl
  | _ => cases hx

/-! ## The order of sorting -/

/-- The numbers of one band are all before or all after those of another one. -/
def band : Number → Int
  | .nan negative _ => if negative then -2 else 2
  | .infinite negative => if negative then -1 else 1
  | .finite .. => 0

/-- The place in the band. The negative zero is just before the positive one. -/
def place : Number → Int
  | .nan negative payload => if negative then -payload.bits else payload.bits
  | .infinite _ => 0
  | x@(.finite negative _) => 2 * x.units - if negative then 1 else 0

theorem totalLe_iff :
    x.totalLe y = true ↔ x.band < y.band ∨ x.band = y.band ∧ x.place ≤ y.place := by
  cases x with
  | nan a p =>
    cases y with
    | nan b q => cases a <;> cases b <;> simp [totalLe, band, place]
    | infinite b => cases a <;> cases b <;> simp [totalLe, band]
    | finite b n => cases a <;> simp [totalLe, band]
  | infinite a =>
    cases y with
    | nan b q => cases a <;> cases b <;> simp [totalLe, band]
    | infinite b => cases a <;> cases b <;> simp [totalLe, band, place, lt, beq, isNegative]
    | finite b n => cases a <;> simp [totalLe, band, lt, beq]
  | finite a m =>
    cases y with
    | nan b q => cases b <;> simp [totalLe, band]
    | infinite b => cases b <;> simp [totalLe, band, lt, beq]
    | finite b n =>
      cases a <;> cases b <;> simp [totalLe, band, place, lt, beq, units, isNegative] <;> omega

theorem totalLe_trans (hxy : x.totalLe y = true) (hyz : y.totalLe z = true) :
    x.totalLe z = true := by
  rw [totalLe_iff] at hxy hyz ⊢
  omega

theorem totalLe_total (x y : Number) : (x.totalLe y || y.totalLe x) = true := by
  rw [Bool.or_eq_true, totalLe_iff, totalLe_iff]
  omega

/-- Numbers in the order of sorting are in numeric order. -/
theorem le_of_totalLe (hx : x.isNaN = false) (hy : y.isNaN = false) (h : x.totalLe y = true) :
    x ≤ y := by
  show le x y = true
  cases x with
  | nan a p => cases hx
  | _ =>
    cases y with
    | nan b q => cases hy
    | _ =>
      -- without undefined numbers the sign matters between equal numbers only
      unfold totalLe at h
      unfold le
      rw [Bool.or_eq_true, Bool.and_eq_true] at h
      rw [Bool.or_eq_true]
      exact h.imp_right And.left

end Number

end PortLogic
