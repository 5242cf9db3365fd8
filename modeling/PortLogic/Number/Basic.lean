/-!
# PortLogic.Number.Basic — binary64 numbers, counted in their smallest unit

A finite number of the 64-bit binary format is a whole multiple of `2 ^ -1074`, so it is stored as
that multiple: a sign and a count of *units*. Comparing finite numbers is comparing integers, and
an arithmetic operation is an exact integer computation followed by one rounding.

1. **Magnitudes**: the counts of units that the format holds, those with at most 53 significant
   bits below `2 ^ 1024`.
2. **Rounding**: `Magnitude.nearest` takes a quotient of naturals to the nearest such count, a tie
   to the even one; `spacing_dvd_nearest` says the result is one the format holds.
3. **Numbers**: the finite ones, the two infinities and the undefined ones, with their
   arithmetic and their order.
-/

namespace PortLogic

-- powers of naturals are the built-in ones, whatever algebra is in scope
attribute [local instance (2000)] instPowNat

namespace Magnitude

/-- How many binary places a unit has after the point. -/
@[irreducible]
def binaryPlaces : Nat := 1074

/-- How many units make one. -/
def unitsPerOne : Nat := 2 ^ binaryPlaces

/-- The least count of units past the largest finite number. -/
@[irreducible]
def limit : Nat := 2 ^ (2098 : Nat)

/-- The distance between neighbouring magnitudes around `n` units: 53 significant bits are kept. -/
def spacing (n : Nat) : Nat := 2 ^ (n.log2 - 52)

/-- The multiple of the local spacing nearest to `num / den`, a tie going to the even multiple. -/
def nearest (num den : Nat) : Nat :=
  let step := spacing (num / den)
  let quotient := num / (den * step)
  let rest := num % (den * step)
  if 2 * rest < den * step ∨ (2 * rest = den * step ∧ quotient % 2 = 0) then
    quotient * step
  else
    (quotient + 1) * step

/-- At most 53 significant bits are a multiple of the spacing they have. -/
theorem spacing_dvd_of_le {k : Nat} (e : Nat) (hk : k ≤ 2 ^ (53 : Nat)) :
    spacing (k * 2 ^ e) ∣ k * 2 ^ e := by
  have hpos : 0 < 2 ^ e := Nat.two_pow_pos e
  rcases Nat.eq_zero_or_pos k with rfl | hk0
  · simp
  rcases Nat.lt_or_eq_of_le hk with hlt | rfl
  · have hne : k * 2 ^ e ≠ 0 := Nat.ne_of_gt (Nat.mul_pos hk0 hpos)
    have hlog : (k * 2 ^ e).log2 < 53 + e := by
      rw [Nat.log2_lt hne, Nat.pow_add]
      exact Nat.mul_lt_mul_of_pos_right hlt hpos
    exact Nat.dvd_trans (Nat.pow_dvd_pow 2 (by omega)) (Nat.dvd_mul_left ..)
  · rw [← Nat.pow_add, spacing, Nat.log2_two_pow]
    exact Nat.pow_dvd_pow 2 (by omega)

/-- Dividing by the local spacing leaves fewer than 54 bits. -/
theorem div_spacing_lt (n : Nat) : n / spacing n < 2 ^ (53 : Nat) := by
  rcases Nat.eq_zero_or_pos n with rfl | hn
  · simp
  rw [spacing, Nat.div_lt_iff_lt_mul (Nat.two_pow_pos _), ← Nat.pow_add]
  exact (Nat.log2_lt (Nat.ne_of_gt hn)).mp (by omega)

/-- What rounding returns is a count of units that the format holds, below the limit. -/
theorem spacing_dvd_nearest (num den : Nat) : spacing (nearest num den) ∣ nearest num den := by
  have hlt := div_spacing_lt (num / den)
  rw [Nat.div_div_eq_div_mul] at hlt
  simp only [nearest]
  split
  · exact spacing_dvd_of_le _ (by omega)
  · exact spacing_dvd_of_le _ (by omega)

/-- A count of units that the format holds is its own rounding. -/
theorem nearest_mul_self {n den : Nat} (h : spacing n ∣ n) (hden : 0 < den) :
    nearest (n * den) den = n := by
  have hstep : 0 < spacing n := Nat.two_pow_pos _
  obtain ⟨k, hk⟩ := h
  have hquot : n * den / den = n := Nat.mul_div_cancel _ hden
  have hfull : n * den = k * (den * spacing n) := by
    conv => lhs; rw [hk]
    rw [Nat.mul_comm (spacing n) k, Nat.mul_assoc, Nat.mul_comm (spacing n) den]
  have hpos : 0 < den * spacing n := Nat.mul_pos hden hstep
  simp only [nearest, hquot]
  rw [hfull, Nat.mul_mod_left, Nat.mul_div_cancel _ hpos]
  rw [if_pos (Or.inl (by simpa using hpos)), Nat.mul_comm, ← hk]

end Magnitude

/-- The size of a finite number, in units. -/
structure Magnitude where
  units : Nat
  spacing_dvd : Magnitude.spacing units ∣ units
  lt_limit : units < Magnitude.limit
deriving DecidableEq

namespace Magnitude

/-- The magnitude nearest to `num / den` units, none when that is past the largest finite one. -/
def round? (num den : Nat) : Option Magnitude :=
  if h : nearest num den < limit then
    some ⟨nearest num den, spacing_dvd_nearest num den, h⟩
  else
    none

/-- A magnitude over any denominator is its own rounding. -/
theorem round?_mul_self (m : Magnitude) {den : Nat} (hden : 0 < den) :
    round? (m.units * den) den = some m := by
  have h := nearest_mul_self m.spacing_dvd hden
  simp only [round?, h]
  rw [dif_pos m.lt_limit]

end Magnitude

/-- The fraction field of an undefined number: any fraction but zero, which is that of infinity. -/
structure Payload where
  bits : Nat
  bits_pos : 0 < bits
  bits_lt : bits < 2 ^ (52 : Nat)
deriving DecidableEq

/-- A 64-bit binary number: undefined, infinite, or a sign with a magnitude. Zero has two signs.
Only sorting tells undefined numbers apart, by their sign and payload. -/
inductive Number where
  | nan (negative : Bool) (payload : Payload)
  | infinite (negative : Bool)
  | finite (negative : Bool) (magnitude : Magnitude)
deriving DecidableEq

namespace Number

/-- The number nearest to `num / den` units, with the given sign; infinite past the largest. -/
def round (negative : Bool) (num den : Nat) : Number :=
  match Magnitude.round? num den with
  | some magnitude => .finite negative magnitude
  | none => .infinite negative

/-- The undefined number that operations without a result return. -/
def quietNaN : Number :=
  .nan false ⟨2 ^ (51 : Nat), by decide, by decide⟩

/-- The number nearest to a whole count of units; `negativeZero` is the sign given to zero. -/
def ofUnits (units : Int) (negativeZero : Bool) : Number :=
  round (if units = 0 then negativeZero else units < 0) units.natAbs 1

/-- The number nearest to a natural number. -/
def ofNat (n : Nat) : Number :=
  round false (n * Magnitude.unitsPerOne) 1

/-- The number nearest to an integer. -/
def ofInt (i : Int) : Number :=
  round (i < 0) (i.natAbs * Magnitude.unitsPerOne) 1

instance {n : Nat} : OfNat Number n := ⟨ofNat n⟩

instance : Inhabited Number := ⟨0⟩

/-- The value of a finite number as a signed count of units; zero for the others. -/
def units : Number → Int
  | .finite negative magnitude => if negative then -magnitude.units else magnitude.units
  | _ => 0

/-- Neither infinite nor undefined. -/
def isFinite : Number → Bool
  | .finite .. => true
  | _ => false

/-- Whether the number is undefined. -/
def isNaN : Number → Bool
  | .nan .. => true
  | _ => false

/-- The sign bit. -/
def isNegative : Number → Bool
  | .nan negative _ => negative
  | .infinite negative => negative
  | .finite negative _ => negative

/-! ## Arithmetic -/

/-- Changes the sign. -/
def neg : Number → Number
  | .nan negative payload => .nan (!negative) payload
  | .infinite negative => .infinite !negative
  | .finite negative magnitude => .finite (!negative) magnitude

/-- Drops the sign. -/
def abs : Number → Number
  | .nan _ payload => .nan false payload
  | .infinite _ => .infinite false
  | .finite _ magnitude => .finite false magnitude

/-- The rounded sum. Opposite infinities have none; a zero sum is negative only of negative
zeros. -/
def add : Number → Number → Number
  | .nan .., _ | _, .nan .. => quietNaN
  | .infinite a, .infinite b => if a = b then .infinite a else quietNaN
  | .infinite a, .finite .. => .infinite a
  | .finite .., .infinite b => .infinite b
  | x@(.finite a _), y@(.finite b _) => ofUnits (x.units + y.units) (a && b)

/-- The rounded difference. -/
def sub (x y : Number) : Number :=
  add x y.neg

/-- The rounded product. Zero times infinity is undefined. -/
def mul : Number → Number → Number
  | .nan .., _ | _, .nan .. => quietNaN
  | .infinite a, .infinite b => .infinite (a ^^ b)
  | .infinite a, .finite b m => if m.units = 0 then quietNaN else .infinite (a ^^ b)
  | .finite a m, .infinite b => if m.units = 0 then quietNaN else .infinite (a ^^ b)
  | .finite a m, .finite b n => round (a ^^ b) (m.units * n.units) Magnitude.unitsPerOne

/-- The rounded quotient. A non-zero number over zero is infinite, zero over zero is undefined. -/
def div : Number → Number → Number
  | .nan .., _ | _, .nan .. => quietNaN
  | .infinite _, .infinite _ => quietNaN
  | .infinite a, .finite b _ => .infinite (a ^^ b)
  | .finite a _, .infinite b => round (a ^^ b) 0 1
  | .finite a m, .finite b n =>
    if n.units = 0 then
      if m.units = 0 then quietNaN else .infinite (a ^^ b)
    else
      round (a ^^ b) (m.units * Magnitude.unitsPerOne) n.units

/-- The remainder of the division truncated toward zero, with the sign of the dividend. -/
def mod : Number → Number → Number
  | .nan .., _ | _, .nan .. | .infinite _, _ => quietNaN
  | x@(.finite ..), .infinite _ => x
  | .finite a m, .finite _ n => if n.units = 0 then quietNaN else round a (m.units % n.units) 1

instance : Neg Number := ⟨neg⟩
instance : Add Number := ⟨add⟩
instance : Sub Number := ⟨sub⟩
instance : Mul Number := ⟨mul⟩
instance : Div Number := ⟨div⟩
instance : Mod Number := ⟨mod⟩

/-! ## Order -/

/-- Numeric equality: both zeros are equal, the undefined number equals nothing. -/
def beq : Number → Number → Bool
  | .nan .., _ | _, .nan .. => false
  | .infinite a, .infinite b => a == b
  | .infinite _, .finite .. | .finite .., .infinite _ => false
  | x@(.finite ..), y@(.finite ..) => x.units == y.units

/-- Strict numeric order; the undefined number is not comparable. -/
def lt : Number → Number → Bool
  | .nan .., _ | _, .nan .. => false
  | .infinite a, .infinite b => a && !b
  | .infinite a, .finite .. => a
  | .finite .., .infinite b => !b
  | x@(.finite ..), y@(.finite ..) => x.units < y.units

/-- Numeric order. -/
def le (x y : Number) : Bool :=
  lt x y || beq x y

instance : BEq Number := ⟨beq⟩
instance : LT Number := ⟨fun x y => lt x y = true⟩
instance : LE Number := ⟨fun x y => le x y = true⟩

instance (x y : Number) : Decidable (x < y) := inferInstanceAs (Decidable (lt x y = true))
instance (x y : Number) : Decidable (x ≤ y) := inferInstanceAs (Decidable (le x y = true))

/-- A total order for sorting: numeric, the negative zero before the positive one. Undefined numbers
come before everything else when they are negative and after it when they are not, those with the
larger payload farther out. -/
def totalLe : Number → Number → Bool
  | .nan a p, .nan b q =>
    if a = b then (if a then q.bits ≤ p.bits else p.bits ≤ q.bits) else a
  | .nan a _, _ => a
  | _, .nan b _ => !b
  | x, y => lt x y || (beq x y && (x.isNegative || !y.isNegative))

/-- The smaller number, the other one when one is undefined. -/
def min (x y : Number) : Number :=
  if x.isNaN then y else if y.isNaN then x else if y < x then y else x

/-- The larger number, the other one when one is undefined. -/
def max (x y : Number) : Number :=
  if x.isNaN then y else if y.isNaN then x else if x < y then y else x

/-- The sum of a list from left to right. It starts at the negative zero, which adds nothing. -/
def sum (xs : List Number) : Number :=
  xs.foldl (· + ·) (-0)

/-- The product of a list from left to right. -/
def product (xs : List Number) : Number :=
  xs.foldl (· * ·) 1

end Number

end PortLogic
