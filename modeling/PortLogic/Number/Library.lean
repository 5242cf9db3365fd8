import PortLogic.Number.Basic

/-!
# PortLogic.Number.Library — the power function of a mathematics library

Powers of numbers come from outside, from the library of the machine, and such libraries differ in
the last place. So a power function is a parameter here (`Power`): expressions, roundings and all
that is built on them are read over any of them. What a library promises of every power function is
stated apart (`LawfulPower`), for the few results that need it.
-/

namespace PortLogic

-- powers of naturals are the built-in ones, whatever algebra is in scope
attribute [local instance (2000)] instPowNat

/-- A power function, as a mathematics library provides one. -/
class Power where
  /-- The first number raised to the second. -/
  pow : Number → Number → Number

/-- What the standards of floating-point arithmetic promise of a power function at zero, and what
libraries promise of powers of integers as far as rounding to decimals uses them. -/
class LawfulPower [Power] : Prop where
  /-- Any number to the power zero is one. -/
  pow_zero (x : Number) {y : Number} (hy : (y == 0) = true) : Power.pow x y = 1
  /-- A zero to a power above zero is a zero. -/
  zero_pow {x y : Number} (hx : (x == 0) = true) (hy : 0 < y) : (Power.pow x y == 0) = true
  /-- A zero to a power below zero is infinite. -/
  zero_pow_neg {x y : Number} (hx : (x == 0) = true) (hy : y < 0) :
    (Power.pow x y).isFinite = false
  /-- A zero to an undefined power is undefined. -/
  zero_pow_nan {x y : Number} (hx : (x == 0) = true) (hy : y.isNaN = true) :
    (Power.pow x y).isNaN = true
  /-- A power of ten that is a whole number is exact. -/
  ten_pow {n : Nat} (hn : n ≤ 10) : Power.pow 10 (Number.ofNat n) = Number.ofNat (10 ^ n)

end PortLogic
