import PortLogic.Number.Basic

/-!
# PortLogic.Number.Integral — whole numbers among the numbers

Rounding to whole numbers, and the conversions to machine integers. A rounding keeps the sign, so
a negative number that rounds to zero gives the negative zero. A conversion drops the fraction,
stops at the ends of the integer range and takes the undefined number to zero.
-/

namespace PortLogic

namespace Number

/-- Applies a rounding of magnitudes, from units to ones, below the sign. -/
def roundWhole (toOnes : Bool → Nat → Nat) : Number → Number
  | .finite negative magnitude =>
    round negative (toOnes negative magnitude.units * Magnitude.unitsPerOne) 1
  | x => x

/-- The quotient of the units by one, rounded up. -/
def ceilOnes (units : Nat) : Nat :=
  (units + (Magnitude.unitsPerOne - 1)) / Magnitude.unitsPerOne

/-- The largest whole number that is not larger. -/
def floor : Number → Number :=
  roundWhole fun negative units =>
    if negative then ceilOnes units else units / Magnitude.unitsPerOne

/-- The smallest whole number that is not smaller. -/
def ceil : Number → Number :=
  roundWhole fun negative units =>
    if negative then units / Magnitude.unitsPerOne else ceilOnes units

/-- The nearest whole number, a half going away from zero. -/
def roundHalfAway : Number → Number :=
  roundWhole fun _ units =>
    (2 * units + Magnitude.unitsPerOne) / (2 * Magnitude.unitsPerOne)

/-- Whether the number is finite and has no fraction. -/
def isWhole : Number → Bool
  | .finite _ magnitude => magnitude.units % Magnitude.unitsPerOne = 0
  | _ => false

/-- The whole part of a finite number, as an integer. -/
def wholePart (x : Number) : Int :=
  x.units.tdiv Magnitude.unitsPerOne

/-- The whole part, held between the ends of an integer range. -/
def toIntWithin (low high : Int) : Number → Int
  | .nan .. => 0
  | .infinite negative => if negative then low else high
  | x@(.finite ..) => Max.max low (Min.min high x.wholePart)

/-- The whole part as a signed 64-bit integer. -/
def toInt64 (x : Number) : Int64 :=
  Int64.ofInt (x.toIntWithin Int64.minValue.toInt Int64.maxValue.toInt)

/-- The whole part as a natural number, at most `high`. -/
def toNatWithin (high : Nat) (x : Number) : Nat :=
  (x.toIntWithin 0 high).toNat

end Number

end PortLogic
