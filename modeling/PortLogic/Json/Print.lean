import PortLogic.Json.Parse

/-!
# PortLogic.Json.Print — a writer of JSON text

The writer of the format that runs use (`JsonFormat.plain`). It puts one item or member on a line,
indented by two blanks for each level.
-/

namespace PortLogic

namespace Json

/-- Numbers in JSON: positional from the fifth decimal up to sixteen digits, a whole number with a
point and a zero, an exact tie to the even digit. -/
def numberStyle : NumberStyle :=
  ⟨.even, fun leading => -5 ≤ leading ∧ leading < 16, ['.', '0']⟩

/-- The lower-case hexadecimal digits of a byte. -/
def hexByte (n : Nat) : List Char :=
  let digits := Nat.toDigits 16 n
  List.replicate (2 - digits.length) '0' ++ digits

/-- A character inside quotes. Quotes, backslashes and control characters are escaped. -/
def escapeChar (c : Char) : List Char :=
  if c = '"' then ['\\', '"']
  else if c = '\\' then ['\\', '\\']
  else if c = '\x08' then ['\\', 'b']
  else if c = '\x0c' then ['\\', 'f']
  else if c = '\n' then ['\\', 'n']
  else if c = '\r' then ['\\', 'r']
  else if c = '\t' then ['\\', 't']
  else if c.toNat < 32 then ['\\', 'u', '0', '0'] ++ hexByte c.toNat
  else [c]

/-- A text in quotes. -/
def quote (s : String) : List Char :=
  '"' :: s.toList.flatMap escapeChar ++ ['"']

/-- The start of a line at a level. -/
def newLine (level : Nat) : List Char :=
  '\n' :: List.replicate (2 * level) ' '

mutual
/-- The text of a value at a level of indentation. What has no text is written as null. -/
def print (level : Nat) : Json → List Char
  | .null | .unreadable => ['n', 'u', 'l', 'l']
  | .bool true => ['t', 'r', 'u', 'e']
  | .bool false => ['f', 'a', 'l', 's', 'e']
  | .integer i => (Number.integerText i).toList
  | .real x => if x.isFinite then numberStyle.text x else ['n', 'u', 'l', 'l']
  | .text s => quote s
  | .array [] => ['[', ']']
  | .array (j :: js) =>
    '[' :: newLine (level + 1) ++ print (level + 1) j ++ printItems (level + 1) js ++
      newLine level ++ [']']
  | .object [] => ['\x7b', '\x7d']
  | .object ((key, j) :: members) =>
    '\x7b' :: newLine (level + 1) ++ quote (key.getD "") ++ [':', ' '] ++ print (level + 1) j ++
      printMembers (level + 1) members ++ newLine level ++ ['\x7d']
/-- The texts of items after the first. -/
def printItems (level : Nat) : List Json → List Char
  | [] => []
  | j :: js => ',' :: newLine level ++ print level j ++ printItems level js
/-- The texts of members after the first. -/
def printMembers (level : Nat) : List (Option String × Json) → List Char
  | [] => []
  | (key, j) :: members =>
    ',' :: newLine level ++ quote (key.getD "") ++ [':', ' '] ++ print level j ++
      printMembers level members
end

/-- The text of a value. -/
def pretty (j : Json) : String :=
  String.ofList (print 0 j)

end Json

/-- A format to run with: decimals are read as the nearest number and written with the fewest
digits. -/
@[reducible]
def JsonFormat.plain : JsonFormat :=
  ⟨Json.parse, Json.pretty⟩

end PortLogic
