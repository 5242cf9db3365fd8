import PortLogic.Number.Basic

/-!
# PortLogic.Number.Bits — the interchange encoding

The 64-bit word of a number: one sign bit, eleven exponent bits and fifty-two fraction bits. The
smallest exponent counts units directly; every larger one doubles the spacing.
-/

namespace PortLogic

-- powers of naturals are the built-in ones, whatever algebra is in scope
attribute [local instance (2000)] instPowNat

namespace Number

/-- The number that a word encodes. -/
def ofBits (bits : UInt64) : Number :=
  let word := bits.toNat
  let negative := 2 ^ (63 : Nat) ≤ word
  let exponent := word / 2 ^ (52 : Nat) % 2 ^ (11 : Nat)
  let fraction := word % 2 ^ (52 : Nat)
  if exponent = 2047 then
    if h : 0 < fraction then .nan negative ⟨fraction, h, Nat.mod_lt _ (Nat.two_pow_pos _)⟩
    else .infinite negative
  else if exponent = 0 then
    round negative fraction 1
  else
    round negative ((2 ^ (52 : Nat) + fraction) * 2 ^ (exponent - 1)) 1

/-- The word of a magnitude without its sign: the units up to the first doubling of the spacing,
then the exponent and the fraction. -/
def magnitudeBits (units : Nat) : Nat :=
  if units < 2 ^ (52 : Nat) then units
  else
    let doublings := units.log2 - 52
    doublings * 2 ^ (52 : Nat) + units / 2 ^ doublings

/-- The bit of a sign. -/
def signBit (negative : Bool) : Nat :=
  if negative then 2 ^ (63 : Nat) else 0

/-- The word that encodes a number. -/
def toBits : Number → UInt64
  | .nan negative payload => UInt64.ofNat (signBit negative + 2047 * 2 ^ (52 : Nat) + payload.bits)
  | .infinite negative => UInt64.ofNat (signBit negative + 2047 * 2 ^ (52 : Nat))
  | .finite negative magnitude =>
    UInt64.ofNat (signBit negative + magnitudeBits magnitude.units)

end Number

end PortLogic
