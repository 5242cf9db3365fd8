/-!
# PortLogic.Text.Blank — characters that count as blank

Two sets of blank characters: the five ASCII ones that may stand between the tokens of an
expression, and the twenty-five of the Unicode property White_Space, which are trimmed from stored
sources.
-/

namespace PortLogic

-- sums of naturals start from the built-in zero, whatever algebra is in scope
attribute [local instance (2000)] Zero.ofOfNat0

namespace Text

/-- A space, a tab, a line feed, a form feed or a carriage return. -/
def isAsciiBlank (c : Char) : Bool :=
  c = ' ' || c = '\t' || c = '\n' || c = '\x0c' || c = '\r'

/-- The ranges of code points with the property White_Space. -/
def blankRanges : List (Nat × Nat) :=
  [(0x9, 0xd), (0x20, 0x20), (0x85, 0x85), (0xa0, 0xa0), (0x1680, 0x1680), (0x2000, 0x200a),
    (0x2028, 0x2029), (0x202f, 0x202f), (0x205f, 0x205f), (0x3000, 0x3000)]

/-- A character with the property White_Space. -/
def isBlank (c : Char) : Bool :=
  blankRanges.any fun range => range.1 ≤ c.toNat && c.toNat ≤ range.2

/-- Drops the elements that satisfy a predicate from both ends. -/
def trimBy {α : Type} (p : α → Bool) (xs : List α) : List α :=
  ((xs.dropWhile p).reverse.dropWhile p).reverse

/-- A source without the blanks around it. -/
def trim (source : String) : String :=
  String.ofList (trimBy isBlank source.toList)

/-- Whether a source holds nothing but blanks. -/
def isBlankText (source : String) : Bool :=
  source.toList.all isBlank

/-- The number of bytes of characters in UTF-8. -/
def byteCount (cs : List Char) : Nat :=
  (cs.map Char.utf8Size).sum

end Text

end PortLogic
