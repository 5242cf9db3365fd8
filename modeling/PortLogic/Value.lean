import PortLogic.Number.Decimal
import PortLogic.Number.Rounding

/-!
# PortLogic.Value — what ports and expressions yield

A value is a number or *undefined*: no valid number is available. Truth values are the numbers
zero and one, and every number but zero counts as true.
-/

namespace PortLogic

-- powers of naturals are the built-in ones, whatever algebra is in scope
attribute [local instance (2000)] instPowNat

/-- A number, or undefined. -/
abbrev Value := Option Number

namespace Number

/-- The number of a truth value. -/
def ofBool (b : Bool) : Number :=
  if b then 1 else 0

/-- Whether a number counts as true. -/
def isTrue (x : Number) : Bool :=
  !(x == 0)

/-- Only finite numbers are values; the others are undefined. -/
def finite? (x : Number) : Value :=
  if x.isFinite then some x else none

/-- The text of a number in an expression: an integer where the number is whole and short. -/
def sourceText (x : Number) : String :=
  if x.isWhole ∧ x.abs < ofNat (10 ^ (15 : Nat)) then integerText x.wholePart else x.plainText

end Number

end PortLogic
