import PortLogic.Number.Basic

/-!
# PortLogic.Number.Decimal — decimals read and written

A decimal is a natural number of digits scaled by a power of ten. Reading one gives the nearest
number. Writing a number picks a decimal with the fewest digits that reads back as the number, of
two such decimals the nearer one.

`readsBack_shortest` says that the decimal picked for a magnitude reads back as that magnitude.
-/

namespace PortLogic

-- powers of naturals are the built-in ones, whatever algebra is in scope
attribute [local instance (2000)] instPowNat

/-- `digits * 10 ^ exponent`. -/
structure Decimal where
  digits : Nat
  exponent : Int
deriving DecidableEq

/-- The number nearest to a decimal. -/
def Number.ofDecimal (negative : Bool) (d : Decimal) : Number :=
  Number.round negative (d.digits * 10 ^ d.exponent.toNat * Magnitude.unitsPerOne)
    (10 ^ (-d.exponent).toNat)

namespace Decimal

/-- The digits of a decimal, most significant first. -/
def digitChars (d : Decimal) : List Char :=
  Nat.toDigits 10 d.digits

/-- The place of the leading digit. -/
def leading (d : Decimal) : Int :=
  d.exponent + d.digitChars.length - 1

/-- Moves one trailing zero from the digits into the exponent. -/
def dropZero (d : Decimal) : Decimal :=
  if d.digits ≠ 0 ∧ d.digits % 10 = 0 then ⟨d.digits / 10, d.exponent + 1⟩ else d

/-- Writes the digits out around the point, with zeros up to it where they are missing. -/
def positional (d : Decimal) : List Char :=
  let digits := d.digitChars
  let fraction := (-d.exponent).toNat
  if fraction = 0 then
    digits ++ List.replicate d.exponent.toNat '0'
  else
    let padded := List.replicate (fraction + 1 - digits.length) '0' ++ digits
    let point := padded.length - fraction
    padded.take point ++ '.' :: padded.drop point

/-- Writes the digits with a point after the first, then the place of the leading digit. -/
def scientific (d : Decimal) : List Char :=
  let mantissa := match d.digitChars with
    | [] => []
    | [digit] => [digit]
    | digit :: rest => digit :: '.' :: rest
  let place := d.leading
  mantissa ++ 'e' :: (if place < 0 then '-' else '+') :: Nat.toDigits 10 place.natAbs

end Decimal

/-- Which of two equally near decimals is written. -/
inductive Tie where
  | even
  | up
deriving DecidableEq

namespace Magnitude

/-- Whether a decimal reads back as the magnitude. -/
def readsBack (m : Magnitude) (d : Decimal) : Bool :=
  Number.ofDecimal false d = .finite false m

/-- The place of the leading digit of a magnitude. Every magnitude but zero has its leading digit
above the four hundredth decimal. -/
def leading (m : Magnitude) : Int :=
  (Nat.toDigits 10 (m.units * 10 ^ (400 : Nat) / unitsPerOne)).length - 401

/-- The two multiples of a power of ten around a magnitude, the nearer one first. -/
def neighbours (tie : Tie) (m : Magnitude) (place : Int) : List Decimal :=
  let num := m.units * 10 ^ (-place).toNat
  let den := unitsPerOne * 10 ^ place.toNat
  let below := num / den
  let rest := num % den
  let lower := Decimal.dropZero ⟨below, place⟩
  let upper := Decimal.dropZero ⟨below + 1, place⟩
  if 2 * rest < den then [lower, upper]
  else if den < 2 * rest then [upper, lower]
  else if tie = .even ∧ below % 2 = 0 then [lower, upper]
  else [upper, lower]

/-- The magnitude written out in full: with `p` binary places, a unit is `5 ^ p` at the last of `p`
decimals. -/
def exact (m : Magnitude) : Decimal :=
  ⟨m.units * 5 ^ binaryPlaces, -binaryPlaces⟩

/-- The decimals that a magnitude may be written as, those with fewer digits first. Seventeen digits
tell any two magnitudes apart. -/
def candidates (tie : Tie) (m : Magnitude) : List Decimal :=
  (List.range 17).flatMap fun (n : Nat) => m.neighbours tie (m.leading - n)

/-- The decimal that a magnitude is written as: fewest digits, then nearest. -/
def shortest (tie : Tie) (m : Magnitude) : Decimal :=
  if m.units = 0 then ⟨0, 0⟩ else ((m.candidates tie).find? m.readsBack).getD m.exact

/-- Written out in full, a magnitude is read as itself. -/
theorem ofDecimal_exact (m : Magnitude) : Number.ofDecimal false m.exact = .finite false m := by
  have hten (p : Nat) : 5 ^ p * 2 ^ p = 10 ^ p := (Nat.mul_pow 5 2 p).symm
  have hread (n p : Nat) : Number.ofDecimal false ⟨n, -(p : Int)⟩ =
      Number.round false (n * unitsPerOne) (10 ^ p) := by
    simp [Number.ofDecimal]
  have hden (p : Nat) : 0 < 10 ^ p := Nat.pow_pos (by decide)
  rw [exact, hread, Number.round, Nat.mul_assoc, unitsPerOne, hten,
    round?_mul_self m (hden binaryPlaces)]

/-- The decimal that a magnitude is written as reads back as that magnitude. -/
theorem readsBack_shortest (tie : Tie) (m : Magnitude) : m.readsBack (m.shortest tie) = true := by
  rw [shortest]
  split
  · next h =>
    have hzero : m.units = 0 * 1 := by simpa using h
    have hround : round? 0 1 = some m := by
      simpa [h] using round?_mul_self m Nat.one_pos
    simp [readsBack, Number.ofDecimal, Number.round, hround]
  · cases h : (m.candidates tie).find? m.readsBack with
    | none => rw [Option.getD_none, readsBack, ofDecimal_exact, decide_eq_true rfl]
    | some d => exact List.find?_some h

end Magnitude

/-- How numbers are laid out as text. -/
structure NumberStyle where
  /-- Which of two equally near decimals is written. -/
  tie : Tie
  /-- The places of the leading digit for which digits are written out around the point. -/
  isPositional : Int → Bool
  /-- What follows a positional text without a point. -/
  wholeSuffix : List Char

namespace NumberStyle

/-- The text of a magnitude. -/
def magnitudeText (style : NumberStyle) (m : Magnitude) : List Char :=
  let d := m.shortest style.tie
  if style.isPositional d.leading then
    d.positional ++ if d.exponent < 0 then [] else style.wholeSuffix
  else
    d.scientific

/-- The text of a number. -/
def text (style : NumberStyle) : Number → List Char
  | .nan .. => ['N', 'a', 'N']
  | .infinite negative => (if negative then ['-'] else []) ++ ['i', 'n', 'f']
  | .finite negative m => (if negative then ['-'] else []) ++ style.magnitudeText m

/-- Always positional, a whole number without a point, an exact tie upward. -/
def plain : NumberStyle := ⟨.up, fun _ => true, []⟩

end NumberStyle

namespace Number

/-- The text of a number in messages. -/
def plainText (x : Number) : String :=
  String.ofList (NumberStyle.plain.text x)

/-- The text of an integer. -/
def integerText (i : Int) : String :=
  String.ofList ((if i < 0 then ['-'] else []) ++ Nat.toDigits 10 i.natAbs)

end Number

end PortLogic
