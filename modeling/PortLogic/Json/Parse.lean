import PortLogic.Json

/-!
# PortLogic.Json.Parse — a reader of JSON text

The reader of the format that runs use (`JsonFormat.plain`), which stands there for the library of
the machine. It follows the JSON grammar by recursion on a bound for the nesting, which the length
of the text supplies, and reads every decimal as the nearest number.
-/

namespace PortLogic

-- powers of naturals are the built-in ones, whatever algebra is in scope
attribute [local instance (2000)] instPowNat

namespace Json

/-- Drops leading blanks. -/
def skipBlanks (cs : List Char) : List Char :=
  cs.dropWhile isBlank

/-! ## Numbers -/

/-- The value of a run of decimal digits. -/
def digitsValue (cs : List Char) : Nat :=
  cs.foldl (fun n c => 10 * n + (c.toNat - '0'.toNat)) 0

/-- The digits after a point; none when no digit follows it. -/
def readFraction : List Char → Option (List Char × List Char)
  | '.' :: cs =>
    let digits := cs.takeWhile Char.isDigit
    if digits = [] then none else some (digits, cs.dropWhile Char.isDigit)
  | cs => some ([], cs)

/-- The digits of an exponent, after its sign. -/
def readExponentDigits (negative : Bool) (cs : List Char) : Option (Option Int × List Char) :=
  let digits := cs.takeWhile Char.isDigit
  if digits = [] then none
  else
    let value : Int := digitsValue digits
    some (some (if negative then -value else value), cs.dropWhile Char.isDigit)

/-- An exponent, when there is one. -/
def readExponent : List Char → Option (Option Int × List Char)
  | c :: cs =>
    if c = 'e' ∨ c = 'E' then
      match cs with
      | '+' :: rest => readExponentDigits false rest
      | '-' :: rest => readExponentDigits true rest
      | _ => readExponentDigits false cs
    else some (none, c :: cs)
  | [] => some (none, [])

/-- The number of a decimal. The exponent decides alone where it is far outside the range of the
format. -/
def realOf (negative : Bool) (digits : List Char) (exponent : Int) : Json :=
  let value := digitsValue digits
  let top := exponent + digits.length
  if value = 0 ∨ top < -400 then .real (Number.round negative 0 1)
  else if 400 < exponent then .unreadable
  else
    let x := Number.ofDecimal negative ⟨value, exponent⟩
    if x.isFinite then .real x else .unreadable

/-- The number of digits without a point and an exponent: an integer where it fits. -/
def integerOf (negative : Bool) (digits : List Char) : Json :=
  let value := digitsValue digits
  if negative then
    if value = 0 ∨ 2 ^ (63 : Nat) < value then realOf true digits 0 else .integer (-value)
  else if value < 2 ^ (64 : Nat) then .integer value
  else realOf false digits 0

/-- Reads a number after its sign. -/
def readMagnitude (negative : Bool) (cs : List Char) : Option (Json × List Char) := do
  let digits := cs.takeWhile Char.isDigit
  if digits = [] ∨ (digits.head? = some '0' ∧ 1 < digits.length) then none
  let (fraction, cs) ← readFraction (cs.dropWhile Char.isDigit)
  let (exponent, cs) ← readExponent cs
  match fraction, exponent with
  | [], none => return (integerOf negative digits, cs)
  | _, _ =>
    return (realOf negative (digits ++ fraction) (exponent.getD 0 - fraction.length), cs)

/-! ## Texts -/

/-- A part of a text: a character, or a 16-bit unit written as an escape. -/
inductive TextPart where
  | char (c : Char)
  | unit (u : Nat)

/-- Reads a text up to its closing quote. -/
def readTextParts : List Char → Option (List TextPart × List Char)
  | [] => none
  | '"' :: cs => some ([], cs)
  | '\\' :: 'u' :: a :: b :: c :: d :: cs => do
    let u ← unitOf? a b c d
    let (parts, rest) ← readTextParts cs
    return (.unit u :: parts, rest)
  | '\\' :: e :: cs => do
    let c ← escapedChar? e
    let (parts, rest) ← readTextParts cs
    return (.char c :: parts, rest)
  | c :: cs => do
    if c.toNat < 32 then none
    let (parts, rest) ← readTextParts cs
    return (.char c :: parts, rest)

/-- Joins the parts of a text, pairing surrogates; none when one is left alone. -/
def joinParts : List TextPart → Option (List Char)
  | [] => some []
  | .char c :: parts => (joinParts parts).map (c :: ·)
  | .unit high :: .unit low :: parts =>
    if 0xd800 ≤ high ∧ high < 0xdc00 then
      if 0xdc00 ≤ low ∧ low < 0xe000 then
        (joinParts parts).map (pairedChar high low :: ·)
      else none
    else if 0xdc00 ≤ high ∧ high < 0xe000 then none
    else (joinParts (.unit low :: parts)).map (Char.ofNat high :: ·)
  | .unit u :: parts =>
    if 0xd800 ≤ u ∧ u < 0xe000 then none else (joinParts parts).map (Char.ofNat u :: ·)

/-- Reads a text after its opening quote; no text when surrogates do not pair. -/
def readText (cs : List Char) : Option (Option String × List Char) :=
  (readTextParts cs).map fun (parts, rest) => ((joinParts parts).map String.ofList, rest)

/-! ## Values -/

/-- Reads a word that stands for a value. -/
def readWord (word : List Char) (j : Json) (cs : List Char) : Option (Json × List Char) :=
  if word.isPrefixOf cs then some (j, cs.drop word.length) else none

/-- A value that was read as a text. -/
def ofText? : Option String → Json
  | some s => .text s
  | none => .unreadable

mutual
/-- Reads a value, after blanks. -/
def readValue : Nat → List Char → Option (Json × List Char)
  | 0, _ => none
  | fuel + 1, cs =>
    match skipBlanks cs with
    | '"' :: cs => (readText cs).map fun (s, rest) => (ofText? s, rest)
    | '[' :: cs =>
      match skipBlanks cs with
      | ']' :: rest => some (.array [], rest)
      | cs => (readItems fuel cs).map fun (items, rest) => (.array items, rest)
    | '\x7b' :: cs =>
      match skipBlanks cs with
      | '\x7d' :: rest => some (.object [], rest)
      | cs => (readMembers fuel cs).map fun (members, rest) => (.object members, rest)
    | '-' :: cs => readMagnitude true cs
    | 't' :: cs => readWord ['r', 'u', 'e'] (.bool true) cs
    | 'f' :: cs => readWord ['a', 'l', 's', 'e'] (.bool false) cs
    | 'n' :: cs => readWord ['u', 'l', 'l'] .null cs
    | cs => readMagnitude false cs
/-- Reads the items of an array, up to its closing bracket. -/
def readItems : Nat → List Char → Option (List Json × List Char)
  | 0, _ => none
  | fuel + 1, cs => do
    let (j, cs) ← readValue fuel cs
    match skipBlanks cs with
    | ']' :: rest => return ([j], rest)
    | ',' :: cs =>
      let (items, rest) ← readItems fuel cs
      return (j :: items, rest)
    | _ => none
/-- Reads the members of an object, up to its closing brace. -/
def readMembers : Nat → List Char → Option (List (Option String × Json) × List Char)
  | 0, _ => none
  | fuel + 1, cs =>
    match skipBlanks cs with
    | '"' :: cs => do
      let (key, cs) ← readText cs
      match skipBlanks cs with
      | ':' :: cs =>
        let (j, cs) ← readValue fuel cs
        match skipBlanks cs with
        | '\x7d' :: rest => return ([(key, j)], rest)
        | ',' :: cs =>
          let (members, rest) ← readMembers fuel cs
          return ((key, j) :: members, rest)
        | _ => none
      | _ => none
    | _ => none
end

/-- Reads a text that holds one value and blanks. -/
def parse (source : String) : Option Json :=
  let cs := source.toList
  match readValue (2 * cs.length + 1) cs with
  | some (j, rest) => if skipBlanks rest = [] then some j else none
  | none => none

end Json

end PortLogic
