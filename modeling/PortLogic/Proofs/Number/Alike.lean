import PortLogic.Func.Lookup
import PortLogic.Number.Integral
import PortLogic.Number.Library
import PortLogic.Proofs.Number.Order
import PortLogic.Value

/-!
# PortLogic.Proofs.Number.Alike — numbers that differ in the sign of zero at most

The scheduler compares numbers by value, so it does not see one zero replace the other. Two numbers
are `Alike` when they are the same or both zero. Each operation on numbers takes alike numbers to
alike numbers, with two exceptions: a division tells the zeros apart in its divisor, and a power in
a base that it inverts. Neither yields a finite number there.
-/

namespace PortLogic

namespace Magnitude

theorem eq_of_units_eq {m n : Magnitude} (h : m.units = n.units) : m = n := by
  cases m
  cases n
  cases h
  rfl

/-- Zero is its own rounding over every denominator. -/
theorem nearest_zero (den : Nat) : nearest 0 den = 0 := by
  unfold nearest
  simp only [Nat.zero_div, Nat.zero_mod, Nat.mul_zero, Nat.zero_mul, and_true]
  rw [if_pos (by omega)]

theorem limit_pos : 0 < limit := by
  unfold limit
  exact Nat.two_pow_pos 2098

theorem exists_zero : ∃ m : Magnitude, m.units = 0 :=
  ⟨⟨0, Nat.dvd_zero _, limit_pos⟩, rfl⟩

end Magnitude

namespace Number

/-- The same number, or two zeros. -/
inductive Alike : Number → Number → Prop where
  | refl (x : Number) : Alike x x
  | zeros (a b : Bool) {m : Magnitude} (hm : m.units = 0) : Alike (.finite a m) (.finite b m)

variable {x x' y y' : Number}

namespace Alike

theorem symm (h : Alike x y) : Alike y x := by
  cases h with
  | refl => exact refl x
  | zeros a b hm => exact zeros b a hm

theorem trans {z : Number} (h : Alike x y) (h' : Alike y z) : Alike x z := by
  cases h with
  | refl => exact h'
  | zeros a b hm =>
    cases h' with
    | refl => exact zeros a b hm
    | zeros _ c _ => exact zeros a c hm

/-- A function that does not look at the sign of zero takes alike numbers to the same result. -/
theorem congr {α : Type} {f : Number → α} (h : Alike x y)
    (hf : ∀ a b m, m.units = 0 → f (.finite a m) = f (.finite b m)) : f x = f y := by
  cases h with
  | refl => rfl
  | zeros a b hm => exact hf a b _ hm

theorem isFinite (h : Alike x y) : x.isFinite = y.isFinite :=
  h.congr fun _ _ _ _ => rfl

theorem isNaN (h : Alike x y) : x.isNaN = y.isNaN :=
  h.congr fun _ _ _ _ => rfl

theorem abs (h : Alike x y) : x.abs = y.abs :=
  h.congr fun _ _ _ _ => rfl

theorem units (h : Alike x y) : x.units = y.units :=
  h.congr fun a b m hm => by
    cases a <;> cases b <;> simp [Number.units, hm]

theorem neg (h : Alike x y) : Alike x.neg y.neg := by
  cases h with
  | refl => exact refl _
  | zeros a b hm => exact zeros (!a) (!b) hm

end Alike

/-! ## Comparisons -/

theorem beq_congr (hx : Alike x x') (hy : Alike y y') : (x == y) = (x' == y') := by
  show beq x y = beq x' y'
  have hleft : beq x y = beq x' y := by
    refine hx.congr (f := fun x => beq x y) ?_
    intro a b m hm
    cases y <;> simp only [beq, (Alike.zeros a b hm).units]
  have hright : beq x' y = beq x' y' := by
    refine hy.congr (f := fun y => beq x' y) ?_
    intro a b m hm
    cases x' <;> simp only [beq, (Alike.zeros a b hm).units]
  exact hleft.trans hright

theorem lt_congr (hx : Alike x x') (hy : Alike y y') : lt x y = lt x' y' := by
  have hleft : lt x y = lt x' y := by
    refine hx.congr (f := fun x => lt x y) ?_
    intro a b m hm
    cases y <;> simp only [lt, (Alike.zeros a b hm).units]
  have hright : lt x' y = lt x' y' := by
    refine hy.congr (f := fun y => lt x' y) ?_
    intro a b m hm
    cases x' <;> simp only [lt, (Alike.zeros a b hm).units]
  exact hleft.trans hright

theorem lt_iff_congr (hx : Alike x x') (hy : Alike y y') : x < y ↔ x' < y' := by
  show lt x y = true ↔ lt x' y' = true
  rw [lt_congr hx hy]

theorem le_iff_congr (hx : Alike x x') (hy : Alike y y') : x ≤ y ↔ x' ≤ y' := by
  have hbeq : beq x y = beq x' y' := beq_congr hx hy
  show (lt x y || beq x y) = true ↔ (lt x' y' || beq x' y') = true
  rw [lt_congr hx hy, hbeq]

/-- Numbers that compare equal are alike. -/
theorem alike_of_beq (h : (x == y) = true) : Alike x y := by
  change beq x y = true at h
  cases x with
  | nan => cases h
  | infinite a =>
    cases y with
    | nan => cases h
    | finite => cases h
    | infinite b =>
      rw [eq_of_beq (show (a == b) = true from h)]
      exact Alike.refl _
  | finite a m =>
    cases y with
    | nan => cases h
    | infinite => cases h
    | finite b n =>
      have hunits : (finite a m).units = (finite b n).units := eq_of_beq h
      have hsize : m.units = n.units ∧ (a = b ∨ m.units = 0) := by
        cases a <;> cases b <;> simp [units] at hunits ⊢ <;> omega
      obtain rfl := Magnitude.eq_of_units_eq hsize.1
      rcases hsize.2 with rfl | hm
      · exact Alike.refl _
      · exact Alike.zeros a b hm

/-- Alike numbers that are finite compare equal. -/
theorem Alike.beq (h : Alike x y) (hfinite : x.isFinite = true) : (x == y) = true := by
  rw [← beq_congr (Alike.refl x) h]
  cases x with
  | nan => cases hfinite
  | infinite => cases hfinite
  | finite a m => exact beq_self_eq_true (finite a m).units

/-- Numbers that equal the same number are equal. -/
theorem beq_of_beq_of_beq {z : Number} (hx : (x == z) = true) (hy : (y == z) = true) :
    (x == y) = true := by
  have hz : (x == z) = (z == z) := beq_congr (alike_of_beq hx) (Alike.refl z)
  rw [beq_congr (alike_of_beq hx) (alike_of_beq hy), ← hz, hx]

theorem Alike.isTrue (h : Alike x y) : x.isTrue = y.isTrue := by
  unfold Number.isTrue
  rw [beq_congr h (Alike.refl 0)]

theorem Alike.min (hx : Alike x x') (hy : Alike y y') : Alike (x.min y) (x'.min y') := by
  unfold Number.min
  simp only [hx.isNaN, hy.isNaN, lt_iff_congr hy hx]
  split
  · exact hy
  split
  · exact hx
  split
  · exact hy
  · exact hx

theorem Alike.max (hx : Alike x x') (hy : Alike y y') : Alike (x.max y) (x'.max y') := by
  unfold Number.max
  simp only [hx.isNaN, hy.isNaN, lt_iff_congr hx hy]
  split
  · exact hy
  split
  · exact hx
  split
  · exact hy
  · exact hx

/-! ## Arithmetic -/

/-- Zero over any denominator is rounded to zero. -/
theorem round_zero {m : Magnitude} (hm : m.units = 0) (negative : Bool) (den : Nat) :
    round negative 0 den = .finite negative m := by
  have hlt : Magnitude.nearest 0 den < Magnitude.limit := by
    rw [Magnitude.nearest_zero]
    exact Magnitude.limit_pos
  unfold round Magnitude.round?
  rw [dif_pos hlt]
  exact congrArg (finite negative)
    (Magnitude.eq_of_units_eq ((Magnitude.nearest_zero den).trans hm.symm))

theorem zero_eq {m : Magnitude} (hm : m.units = 0) : (0 : Number) = .finite false m := by
  show round false (0 * Magnitude.unitsPerOne) 1 = _
  rw [Nat.zero_mul]
  exact round_zero hm false 1

theorem finite_beq_zero {negative : Bool} {m : Magnitude} :
    (finite negative m == 0) = true ↔ m.units = 0 := by
  rcases Magnitude.exists_zero with ⟨z, hz⟩
  rw [zero_eq hz]
  show ((finite negative m).units == (finite false z).units) = true ↔ _
  cases negative <;> simp [units, hz]

theorem round_zero_alike (a b : Bool) (c d : Nat) : Alike (round a 0 c) (round b 0 d) := by
  rcases Magnitude.exists_zero with ⟨m, hm⟩
  rw [round_zero hm, round_zero hm]
  exact Alike.zeros a b hm

theorem ofUnits_alike (u : Int) (a b : Bool) : Alike (ofUnits u a) (ofUnits u b) := by
  unfold ofUnits
  by_cases h : u = 0
  · rw [if_pos h, if_pos h, h]
    exact round_zero_alike a b 1 1
  · rw [if_neg h, if_neg h]
    exact Alike.refl _

namespace Alike

/-- Both arguments of an operation can be replaced when each can. -/
theorem binary {f : Number → Number → Number} (hx : Alike x x') (hy : Alike y y')
    (hleft : ∀ a b m y, m.units = 0 → Alike (f (.finite a m) y) (f (.finite b m) y))
    (hright : ∀ a b m x, m.units = 0 → Alike (f x (.finite a m)) (f x (.finite b m))) :
    Alike (f x y) (f x' y') := by
  have hfirst : Alike (f x y) (f x' y) := by
    cases hx with
    | refl => exact refl _
    | zeros a b hm => exact hleft a b _ y hm
  have hsecond : Alike (f x' y) (f x' y') := by
    cases hy with
    | refl => exact refl _
    | zeros a b hm => exact hright a b _ x' hm
  exact hfirst.trans hsecond

theorem add (hx : Alike x x') (hy : Alike y y') : Alike (x + y) (x' + y') := by
  refine binary (f := Number.add) hx hy ?_ ?_
  · intro a b m y hm
    cases y with
    | nan => exact refl _
    | infinite => exact refl _
    | finite c n =>
      simp only [Number.add, (zeros a b hm).units]
      exact ofUnits_alike ..
  · intro a b m x hm
    cases x with
    | nan => exact refl _
    | infinite => exact refl _
    | finite c n =>
      simp only [Number.add, (zeros a b hm).units]
      exact ofUnits_alike ..

theorem sub (hx : Alike x x') (hy : Alike y y') : Alike (x - y) (x' - y') :=
  hx.add hy.neg

theorem mul (hx : Alike x x') (hy : Alike y y') : Alike (x * y) (x' * y') := by
  refine binary (f := Number.mul) hx hy ?_ ?_
  · intro a b m y hm
    cases y with
    | nan => exact refl _
    | infinite =>
      simp only [Number.mul, if_pos hm]
      exact refl _
    | finite c n =>
      simp only [Number.mul, hm, Nat.zero_mul]
      exact round_zero_alike ..
  · intro a b m x hm
    cases x with
    | nan => exact refl _
    | infinite =>
      simp only [Number.mul, if_pos hm]
      exact refl _
    | finite c n =>
      simp only [Number.mul, hm, Nat.mul_zero]
      exact round_zero_alike ..

/-- The sign of a zero shows in the divisor only. -/
theorem div (h : Alike x y) (z : Number) : Alike (x / z) (y / z) := by
  cases h with
  | refl => exact refl _
  | zeros a b hm =>
    show Alike (Number.div _ z) (Number.div _ z)
    cases z with
    | nan => exact refl _
    | infinite => exact round_zero_alike ..
    | finite c n =>
      simp only [Number.div, hm, if_true, Nat.zero_mul]
      split
      · exact refl _
      · exact round_zero_alike ..

theorem mod (h : Alike x y) (z : Number) : Alike (x % z) (y % z) := by
  cases h with
  | refl => exact refl _
  | zeros a b hm =>
    show Alike (Number.mod _ z) (Number.mod _ z)
    cases z with
    | nan => exact refl _
    | infinite => exact zeros a b hm
    | finite c n =>
      simp only [Number.mod, hm, Nat.zero_mod]
      split
      · exact refl _
      · exact round_zero_alike ..

/-- Numbers other than zero that are alike are the same. -/
theorem eq_of_ne_zero (h : Alike x y) (hne : (x == 0) = false) : x = y := by
  cases h with
  | refl => rfl
  | @zeros a b m hm =>
    rw [zero_eq hm, (zeros a false hm).beq rfl] at hne
    cases hne

/-! ## Whole parts and powers -/

theorem toIntWithin (h : Alike x y) (low high : Int) :
    x.toIntWithin low high = y.toIntWithin low high := by
  refine h.congr (f := Number.toIntWithin low high) ?_
  intro a b m hm
  simp only [Number.toIntWithin, wholePart, (zeros a b hm).units]

theorem toInt64 (h : Alike x y) : x.toInt64 = y.toInt64 := by
  unfold Number.toInt64
  rw [h.toIntWithin]

theorem toNatWithin (h : Alike x y) (high : Nat) : x.toNatWithin high = y.toNatWithin high := by
  unfold Number.toNatWithin
  rw [h.toIntWithin]

theorem roundWhole {toOnes : Bool → Nat → Nat} (hzero : ∀ negative, toOnes negative 0 = 0)
    (h : Alike x y) : Alike (Number.roundWhole toOnes x) (Number.roundWhole toOnes y) := by
  cases h with
  | refl => exact refl _
  | zeros a b hm =>
    simp only [Number.roundWhole, hm, hzero, Nat.zero_mul]
    exact round_zero_alike ..

theorem ceilOnes_zero : ceilOnes 0 = 0 := by
  have hpos : 0 < Magnitude.unitsPerOne := Nat.two_pow_pos _
  unfold ceilOnes
  exact Nat.div_eq_of_lt (by omega)

theorem floor (h : Alike x y) : Alike x.floor y.floor := by
  refine h.roundWhole ?_
  intro negative
  rw [ceilOnes_zero, Nat.zero_div, ite_self]

theorem ceil (h : Alike x y) : Alike x.ceil y.ceil := by
  refine h.roundWhole ?_
  intro negative
  rw [ceilOnes_zero, Nat.zero_div, ite_self]

theorem roundHalfAway (h : Alike x y) : Alike x.roundHalfAway y.roundHalfAway := by
  have hpos : 0 < Magnitude.unitsPerOne := Nat.two_pow_pos _
  refine h.roundWhole ?_
  intro negative
  exact Nat.div_eq_of_lt (by omega)

/-- A base of zero that is inverted yields an infinity with its sign, which is no value. -/
theorem pow [Power] [LawfulPower] (hx : Alike x x') (hy : Alike y y') :
    Alike (Power.pow x y) (Power.pow x' y') ∨
      (Power.pow x y).isFinite = false ∧ (Power.pow x' y').isFinite = false := by
  have hone {z : Number} (hz : (z == 0) = true) : Power.pow x z = Power.pow x' z := by
    rw [LawfulPower.pow_zero x hz, LawfulPower.pow_zero x' hz]
  cases hy with
  | zeros a b hm =>
    left
    rw [hone (finite_beq_zero.mpr hm), LawfulPower.pow_zero x' (finite_beq_zero.mpr hm),
      LawfulPower.pow_zero x' (finite_beq_zero.mpr hm)]
    exact refl 1
  | refl =>
    cases hx with
    | refl => exact Or.inl (refl _)
    | @zeros a b m hm =>
      have hbase (c : Bool) : (finite c m == 0) = true := finite_beq_zero.mpr hm
      cases hnan : y.isNaN with
      | true =>
        exact Or.inr ⟨isFinite_of_isNaN (LawfulPower.zero_pow_nan (hbase a) hnan),
          isFinite_of_isNaN (LawfulPower.zero_pow_nan (hbase b) hnan)⟩
      | false =>
        rcases neg_or_zero_or_pos hnan with hneg | hzero | hpos
        · exact Or.inr ⟨LawfulPower.zero_pow_neg (hbase a) hneg,
            LawfulPower.zero_pow_neg (hbase b) hneg⟩
        · rw [hone hzero]
          exact Or.inl (refl _)
        · exact Or.inl (alike_of_beq (beq_of_beq_of_beq
            (LawfulPower.zero_pow (hbase a) hpos) (LawfulPower.zero_pow (hbase b) hpos)))

end Alike

end Number

end PortLogic
