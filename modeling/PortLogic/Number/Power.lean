import PortLogic.Number.Integral
import PortLogic.Number.Library

/-!
# PortLogic.Number.Power — powers rounded once

A power function to run with (`Power.rounded`), in the place of that of a library: the power of two
finite numbers, rounded once. A power that is rational with a moderate numerator is computed
exactly. Every other power is irrational or far from a tie, so it is enclosed between two
fixed-point bounds, `exp (y * ln x)` widened by the error of the series; the bounds get closer until
both round to the same number.
-/

namespace PortLogic

-- powers of naturals are the built-in ones, whatever algebra is in scope
attribute [local instance (2000)] instPowNat

/-! ## Fixed-point series

A fixed-point number with `bits` binary places is a natural number over `2 ^ bits`. -/

namespace FixedPoint

/-- `z + z ^ 3 / 3 + z ^ 5 / 5 + …` for a fixed-point `z`, starting at the term `term / k`. -/
def artanhFrom (bits square : Nat) : Nat → Nat → Nat → Nat
  | 0, _, _ => 0
  | fuel + 1, k, term =>
    term / k + artanhFrom bits square fuel (k + 2) (term * square / 2 ^ bits)

/-- The inverse hyperbolic tangent of a fixed-point number below one half. -/
def artanh (bits z : Nat) : Nat :=
  artanhFrom bits (z * z / 2 ^ bits) bits 1 z

/-- The natural logarithm of two. -/
def lnTwo (bits : Nat) : Nat :=
  2 * artanh bits (2 ^ bits / 3)

/-- The natural logarithm of `odd * 2 ^ exponent`, for `odd` above zero. -/
def ln (bits odd : Nat) (exponent : Int) : Int :=
  let length := odd.log2
  let top := 2 ^ length
  let mantissa := 2 * artanh bits ((odd - top) * 2 ^ bits / (odd + top))
  (exponent + length) * lnTwo bits + mantissa

/-- `term + term * z / k + …`, the exponential series from one of its terms on. -/
def expFrom (bits z : Nat) : Nat → Nat → Nat → Nat
  | 0, _, term => term
  | fuel + 1, k, term => term + expFrom bits z fuel (k + 1) (term * z / 2 ^ bits / k)

/-- The exponential of a fixed-point number below one. -/
def exp (bits z : Nat) : Nat :=
  expFrom bits z bits 1 (2 ^ bits)

end FixedPoint

/-- The integer square root by pairs of binary digits. -/
def integerSqrt : Nat → Nat → Nat
  | 0, _ => 0
  | fuel + 1, n =>
    if n = 0 then 0
    else
      let root := 2 * integerSqrt fuel (n / 4)
      if (root + 1) * (root + 1) ≤ n then root + 1 else root

namespace Number

/-- The exponent of the largest power of two that divides a positive number. -/
def trailingZeros (n : Nat) : Nat :=
  (n ^^^ (n - 1)).log2

/-- The root of degree `2 ^ k` of `odd * 2 ^ exponent`, when it has that form too. -/
def dyadicRoot : Nat → Nat × Int → Option (Nat × Int)
  | 0, base => some base
  | k + 1, (odd, exponent) =>
    let root := integerSqrt odd.log2.succ odd
    if root * root = odd ∧ exponent % 2 = 0 then dyadicRoot k (root, exponent / 2) else none

/-- A power of magnitudes: the base is `odd * 2 ^ exponent`, above zero and not one, the exponent
a number of units above zero with the sign `inverted`. -/
structure PowerOf where
  odd : Nat
  exponent : Int
  inverted : Bool
  units : Nat

namespace PowerOf

/-- The power as an exact quotient, for a rational power with a moderate numerator. -/
def ratio? (p : PowerOf) : Option (Nat × Nat) :=
  let zeros := trailingZeros p.units
  let places := Magnitude.binaryPlaces - zeros
  match dyadicRoot places (p.odd, p.exponent) with
  | none => none
  | some (odd, exponent) =>
    let times := p.units / 2 ^ zeros * 2 ^ (zeros - Magnitude.binaryPlaces)
    if odd = 1 ∨ odd.log2.succ * times ≤ 4096 then
      let shift := exponent * times
      let num := odd ^ times * 2 ^ shift.toNat
      let den := 2 ^ (-shift).toNat
      some (if p.inverted then (den, num) else (num, den))
    else
      none

/-- The natural logarithm of the power, in fixed point, as a multiple of the logarithm of two and
a rest below it. -/
def logarithm (p : PowerOf) (bits : Nat) : Int × Nat :=
  let units : Int := if p.inverted then -p.units else p.units
  let product := (FixedPoint.ln bits p.odd p.exponent * units).fdiv Magnitude.unitsPerOne
  let two := FixedPoint.lnTwo bits
  (product.fdiv two, (product.fmod two).toNat)

/-- Rounds `mantissa / 2 ^ bits * 2 ^ doublings`. -/
def roundScaled (bits mantissa : Nat) (doublings : Int) (negative : Bool) : Number :=
  round negative (mantissa * 2 ^ doublings.toNat * Magnitude.unitsPerOne)
    (2 ^ (bits + (-doublings).toNat))

/-- Encloses the power with each precision in turn until both bounds round to the same number. -/
def enclose (p : PowerOf) (negative : Bool) : List Nat → Number
  | [] => quietNaN
  | bits :: finer =>
    let (doublings, rest) := p.logarithm bits
    let mantissa := FixedPoint.exp bits rest
    let slack := 2 ^ 96
    let low := roundScaled bits (mantissa - slack) doublings negative
    let high := roundScaled bits (mantissa + slack) doublings negative
    if low = high ∨ finer = [] then low else p.enclose negative finer

/-- The power with a sign, rounded. Doublings far outside the exponent range decide it at once. -/
def value (p : PowerOf) (negative : Bool) : Number :=
  let doublings := (p.logarithm 256).1
  if 1100 < doublings then .infinite negative
  else if doublings < -1200 then round negative 0 1
  else
    match p.ratio? with
    | some (num, den) => round negative (num * Magnitude.unitsPerOne) den
    | none => p.enclose negative [256, 512, 1024, 2048]

end PowerOf

/-- Whether a number is a whole odd number. -/
def isOdd (x : Number) : Bool :=
  x.isWhole && x.wholePart % 2 ≠ 0

/-- The power of a base above zero and below infinity. -/
def powFinite (negative : Bool) (base exponent : Magnitude) (inverted : Bool) : Number :=
  if base.units = Magnitude.unitsPerOne then round negative Magnitude.unitsPerOne 1
  else
    let zeros := trailingZeros base.units
    PowerOf.value ⟨base.units / 2 ^ zeros, (zeros : Int) - Magnitude.binaryPlaces, inverted,
      exponent.units⟩ negative

/-- The first number raised to the second. Any number to the power zero and one to any power are
one; a negative number has a power only for whole exponents. -/
def pow (x y : Number) : Number :=
  if y == 0 || x == 1 then 1
  else
    let negative := x.isNegative && y.isOdd
    let zero := round negative 0 1
    match x, y with
    | .nan .., _ | _, .nan .. => quietNaN
    | _, .infinite down =>
      if x.abs == 1 then 1
      else if decide (1 < x.abs) = down then round false 0 1
      else .infinite false
    | .infinite _, .finite down _ => if down then zero else .infinite negative
    | .finite below base, .finite down exponent =>
      if base.units = 0 then
        if down then .infinite negative else zero
      else if below && !y.isWhole then quietNaN
      else powFinite negative base exponent down

end Number

/-- Powers that are rounded once. A library may differ from them in the last place. -/
@[reducible]
def Power.rounded : Power := ⟨Number.pow⟩

end PortLogic
