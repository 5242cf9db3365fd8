import PortLogic.Number.Integral
import PortLogic.Number.Library

/-!
# PortLogic.Number.Rounding — rounding to decimals

Rounding to a number of decimals multiplies by a power of ten, rounds to a whole number and divides
again. The rule is written once for every kind of number that has these steps, so that it can be
read over the rationals, where each step is exact, as well as over the 64-bit numbers, where the
power of ten is the one of the library.
-/

namespace PortLogic

-- powers of naturals are the built-in ones, whatever algebra is in scope
attribute [local instance (2000)] instPowNat

/-- A kind of number that can be rounded to decimals. -/
class Decimals (α : Type) extends Mul α, Div α where
  /-- The power of ten with this exponent. -/
  tenPow : Int → α
  /-- The nearest whole number, a half going away from zero. -/
  roundHalfAway : α → α
  /-- Whether the number is at least this many ones away from zero. -/
  atLeast : α → Nat → Bool

namespace Decimals

variable {α : Type} [Decimals α]

/-- The largest number of decimals, or of places before the point, that a rounding keeps apart. -/
def maxPlaces : Int := 10

/-- Rounds to a number of decimals; a negative number of them rounds to tens, hundreds and so on. -/
def roundTo (x : α) (places : Int) : α :=
  let factor : α := tenPow (Max.max (-maxPlaces) (Min.min maxPlaces places))
  roundHalfAway (x * factor) / factor

/-- How many decimals are worth keeping at the size of a number. -/
def placesFor (x : α) : Int :=
  if atLeast x 1000 then 0
  else if atLeast x 100 then 1
  else if atLeast x 10 then 2
  else if atLeast x 1 then 3
  else 4

/-- Rounds to the number of decimals worth keeping, fewer for larger numbers. -/
def roundByMagnitude (x : α) : α :=
  roundTo x (placesFor x)

end Decimals

instance [Power] : Decimals Number where
  tenPow exponent := Power.pow 10 (Number.ofInt exponent)
  roundHalfAway := Number.roundHalfAway
  atLeast x n := Number.ofNat n ≤ x.abs

instance : Decimals Rat where
  tenPow exponent := 10 ^ exponent
  roundHalfAway q := if q < 0 then -((-q + 1 / 2).floor : Rat) else ((q + 1 / 2).floor : Rat)
  atLeast q n := (n : Rat) ≤ (if q < 0 then -q else q)

end PortLogic
