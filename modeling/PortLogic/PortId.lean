/-!
# PortLogic.PortId — port identifiers

An identifier starts with a letter or an underscore and goes on with letters, digits, `_`, `-` and
`.`, all of them ASCII.
-/

namespace PortLogic

namespace PortId

/-- Whether a character may start an identifier. -/
def isFirst (c : Char) : Bool :=
  c.isAlpha || c = '_'

/-- Whether a character may follow in an identifier. -/
def isRest (c : Char) : Bool :=
  c.isAlphanum || c = '_' || c = '-' || c = '.'

/-- The index of the first character that is not allowed where it stands. -/
def invalidAt? (id : List Char) : Option Nat :=
  match id with
  | [] => none
  | c :: cs => if isFirst c then (cs.findIdx? fun d => !isRest d).map (· + 1) else some 0

/-- Whether characters form an identifier. -/
def isValid (id : List Char) : Bool :=
  match id with
  | [] => false
  | c :: cs => isFirst c && cs.all isRest

end PortId

end PortLogic
