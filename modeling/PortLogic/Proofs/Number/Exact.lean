import PortLogic.Proofs.Number.Whole

/-!
# PortLogic.Proofs.Number.Exact — arithmetic on whole numbers

A number counts a natural number when it has its value, and either zero counts zero
(`Number.Counts`). Up to `2 ^ 53` nothing is rounded: sums and remainders of numbers that count
count the sums and remainders of the naturals, and comparing them compares the naturals.
-/

namespace PortLogic

-- powers and sums of naturals are the built-in ones, whatever algebra is in scope
attribute [local instance (2000)] instPowNat Zero.ofOfNat0

namespace Number

/-- The number has the value of a natural number. Zero may have either sign. -/
inductive Counts : Number → Nat → Prop where
  | intro {negative : Bool} {m : Magnitude} {n : Nat}
    (units_eq : m.units = n * Magnitude.unitsPerOne) (sign : negative = true → n = 0) :
    Counts (.finite negative m) n

variable {x y : Number} {m n : Nat}

theorem Counts.units (h : Counts x n) : x.units = (n * Magnitude.unitsPerOne : Nat) := by
  rcases h with ⟨hunits, hsign⟩
  rename_i negative magnitude
  cases negative with
  | true =>
    rw [hsign rfl, Nat.zero_mul] at hunits
    show -(magnitude.units : Int) = _
    rw [hunits, hsign rfl, Nat.zero_mul]
    rfl
  | false => exact congrArg Nat.cast hunits

theorem Counts.isFinite (h : Counts x n) : x.isFinite = true := by
  cases h
  rfl

/-- A whole number of ones is its own rounding. -/
theorem counts_round {negative : Bool} (hn : n ≤ 2 ^ (53 : Nat)) (hsign : negative = true → n = 0) :
    Counts (round negative (n * Magnitude.unitsPerOne) 1) n := by
  rcases Magnitude.exists_whole hn with ⟨magnitude, hunits⟩
  rw [← hunits, round_units]
  exact .intro hunits hsign

theorem counts_ofNat (hn : n ≤ 2 ^ (53 : Nat)) : Counts (ofNat n) n :=
  counts_round hn fun h => absurd h Bool.false_ne_true

theorem counts_zero : Counts 0 0 :=
  counts_ofNat (Nat.zero_le _)

theorem counts_negZero : Counts (-0) 0 := by
  rcases exists_ofNat (n := 0) (Nat.zero_le _) with ⟨magnitude, hunits, hzero⟩
  show Counts (neg (ofNat 0)) 0
  rw [hzero]
  exact .intro hunits fun _ => rfl

/-- Of the numbers with a negative sign, only the negative zero is not below zero. -/
theorem zero_le_finite_iff {negative : Bool} {m : Magnitude} :
    0 ≤ finite negative m ↔ (negative = true → m.units = 0) := by
  change ofNat 0 ≤ finite negative m ↔ _
  rw [le_iff_units (isFinite_ofNat (by decide)) rfl, units_ofNat (by decide), Nat.zero_mul, units]
  cases negative with
  | true =>
    simp only [if_true, true_imp_iff]
    omega
  | false => simp

/-- A whole number that is not negative counts its whole part. -/
theorem counts_of_isWhole (hwhole : x.isWhole = true) (hsign : 0 ≤ x) :
    Counts x x.wholePart.toNat := by
  cases x with
  | nan => cases hwhole
  | infinite => cases hwhole
  | finite negative magnitude =>
    have hdvd : Magnitude.unitsPerOne ∣ magnitude.units :=
      Nat.dvd_of_mod_eq_zero (of_decide_eq_true hwhole)
    rw [wholePart_finite]
    cases negative with
    | true =>
      have hzero : magnitude.units = 0 := zero_le_finite_iff.mp hsign rfl
      rw [hzero, Nat.zero_div]
      exact .intro (by rw [hzero]; exact (Nat.zero_mul _).symm) fun _ => rfl
    | false =>
      exact .intro (Nat.div_mul_cancel hdvd).symm fun h => absurd h Bool.false_ne_true

theorem Counts.lt_iff (hx : Counts x m) (hy : Counts y n) : x < y ↔ m < n := by
  have hpos : 0 < Magnitude.unitsPerOne := Nat.two_pow_pos _
  rw [lt_iff_units hx.isFinite hy.isFinite, hx.units, hy.units, Int.ofNat_lt,
    Nat.mul_lt_mul_right hpos]

theorem Counts.le_iff (hx : Counts x m) (hy : Counts y n) : x ≤ y ↔ m ≤ n := by
  have hpos : 0 < Magnitude.unitsPerOne := Nat.two_pow_pos _
  rw [le_iff_units hx.isFinite hy.isFinite, hx.units, hy.units, Int.ofNat_le,
    Nat.mul_le_mul_right_iff hpos]

theorem Counts.add (hx : Counts x m) (hy : Counts y n) (h : m + n ≤ 2 ^ (53 : Nat)) :
    Counts (x + y) (m + n) := by
  have hsum : x.units + y.units = ((m + n) * Magnitude.unitsPerOne : Nat) := by
    rw [hx.units, hy.units, Nat.add_mul, Int.natCast_add]
  have hpos : 0 < Magnitude.unitsPerOne := Nat.two_pow_pos _
  cases hx
  cases hy
  show Counts (ofUnits _ _) (m + n)
  rw [hsum, ofUnits, Int.natAbs_natCast]
  refine counts_round h ?_
  split
  · next hzero =>
    intro _
    exact (Nat.mul_eq_zero.mp (Int.ofNat_eq_zero.mp hzero)).resolve_right (Nat.ne_of_gt hpos)
  · intro hnegative
    exact absurd (of_decide_eq_true hnegative) (Int.not_lt_of_ge (Int.natCast_nonneg _))

theorem Counts.mod (hx : Counts x m) (hy : Counts y n) (hn : 0 < n) (hm : m ≤ 2 ^ (53 : Nat)) :
    Counts (x % y) (m % n) := by
  have hpos : 0 < Magnitude.unitsPerOne := Nat.two_pow_pos _
  rcases hx with ⟨hunits, hsign⟩
  rcases hy with ⟨hunits', -⟩
  show Counts (Number.mod _ _) (m % n)
  unfold Number.mod
  have hne : n * Magnitude.unitsPerOne ≠ 0 := Nat.ne_of_gt (Nat.mul_pos hn hpos)
  simp only [hunits, hunits']
  rw [if_neg hne, Nat.mul_mod_mul_right]
  refine counts_round (Nat.le_trans (Nat.mod_le m n) hm) ?_
  intro hnegative
  rw [hsign hnegative, Nat.zero_mod]

/-- Summing from left to right stays exact when the whole sum does. -/
theorem Counts.foldl {xs : List Number} {value : Number → Nat} (hx : Counts x n)
    (hxs : ∀ y ∈ xs, Counts y (value y)) (h : n + (xs.map value).sum ≤ 2 ^ (53 : Nat)) :
    Counts (xs.foldl (· + ·) x) (n + (xs.map value).sum) := by
  induction xs generalizing x n with
  | nil => exact hx
  | cons y ys ih =>
    rw [List.map_cons, List.sum_cons, ← Nat.add_assoc] at h ⊢
    have hsum : Counts (x + y) (n + value y) := hx.add (hxs y List.mem_cons_self) (by omega)
    exact ih hsum (fun z hz => hxs z (List.mem_cons_of_mem y hz)) h

theorem counts_sum {xs : List Number} {value : Number → Nat} (hxs : ∀ y ∈ xs, Counts y (value y))
    (h : (xs.map value).sum ≤ 2 ^ (53 : Nat)) : Counts (sum xs) (xs.map value).sum := by
  rw [← Nat.zero_add (xs.map value).sum] at h ⊢
  exact counts_negZero.foldl hxs h

end Number

/-- Times that are less than `2 ^ 53` milliseconds apart have an exact distance. -/
theorem counts_elapsed {since now : Nat} (h : now - since ≤ 2 ^ (53 : Nat)) :
    (elapsed since now).Counts (now - since) :=
  Number.counts_ofNat h

end PortLogic
