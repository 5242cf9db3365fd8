import PortLogic.Value

/-!
# PortLogic.Json — JSON values and records

The tree of a JSON text, and how its leaves and records are read. A number keeps whether it was
written as an integer. Text that is well formed but stands for no value, such as a number past the
largest float or a lone surrogate, can be skipped and cannot be read.

Text is read and written by a library from outside. That library is a parameter (`JsonFormat`):
storage is read over any of them.
-/

namespace PortLogic

-- powers of naturals are the built-in ones, whatever algebra is in scope
attribute [local instance (2000)] instPowNat

/-- A JSON value. -/
inductive Json where
  | null
  | bool (b : Bool)
  /-- A number without a point and an exponent, of at most 64 bits. -/
  | integer (i : Int)
  /-- Any other number. -/
  | real (x : Number)
  | text (s : String)
  | array (items : List Json)
  /-- The members in order, repeats kept; a key without a text cannot be read. -/
  | object (members : List (Option String × Json))
  /-- A leaf that can only be skipped. -/
  | unreadable

/-- A reader and a writer of JSON text, as a library provides them. -/
class JsonFormat where
  /-- Reads a text that holds one value; none when the text is malformed. -/
  read : String → Option Json
  /-- The text that a value is written as. -/
  write : Json → String

namespace Json

instance : Inhabited Json := ⟨.null⟩

/-- An object with readable keys. -/
def record (members : List (String × Json)) : Json :=
  .object (members.map fun (key, value) => (some key, value))

/-! ## Reading leaves -/

/-- Reads a truth value. -/
def toBool? : Json → Option Bool
  | .bool b => some b
  | _ => none

/-- Reads an unsigned 64-bit integer. -/
def toUInt64? : Json → Option UInt64
  | .integer i => if 0 ≤ i ∧ i < 2 ^ (64 : Nat) then some (UInt64.ofNat i.toNat) else none
  | _ => none

/-- Reads a number; integers are numbers too. -/
def toNumber? : Json → Option Number
  | .integer i => some (Number.ofInt i)
  | .real x => some x
  | _ => none

/-- Reads a text. -/
def toText? : Json → Option String
  | .text s => some s
  | _ => none

/-- Reads null as nothing, anything else with `read`. -/
def toOption? {α : Type} (read : Json → Option α) : Json → Option (Option α)
  | .null => some none
  | j => (read j).map some

/-- Reads one of a few names, written as a text or as an object of that name and null. -/
def toNamed? {α : Type} (names : List (String × α)) : Json → Option α
  | .text s => names.lookup s
  | .object [(some s, .null)] => names.lookup s
  | _ => none

/-- Reads a list. -/
def toList? {α : Type} (read : Json → Option α) : Json → Option (List α)
  | .array items => items.mapM read
  | _ => none

/-! ## Reading records -/

/-- The fields of a record that have been found, by name. -/
abbrev Fields := List (String × Json)

/-- The members with the given names. Every key must be a text, and no such name may repeat. -/
def members? (names : List String) (members : List (Option String × Json)) : Option Fields := do
  let all ← members.mapM fun (key, value) => key.map (·, value)
  let known := all.filter fun (key, _) => names.contains key
  if (known.map (·.1)).Nodup then return known else none

/-- The fields of a record, written as an object or as an array of values in order. -/
def fields? (names : List String) : Json → Option Fields
  | .object members => members? names members
  | .array items => if items.length ≤ names.length then some (names.zip items) else none
  | _ => none

/-- Reads a field; an absent one has the initial value. -/
def Fields.read? {α : Type} (fields : Fields) (name : String) (read : Json → Option α)
    (initial : α) : Option α :=
  match fields.lookup name with
  | some value => read value
  | none => some initial

/-! ## Characters -/

/-- A space, a tab, a line feed or a carriage return. -/
def isBlank (c : Char) : Bool :=
  c = ' ' || c = '\t' || c = '\n' || c = '\r'

/-- The value of a hexadecimal digit. -/
def hexValue? (c : Char) : Option Nat :=
  if '0' ≤ c ∧ c ≤ '9' then some (c.toNat - '0'.toNat)
  else if 'a' ≤ c ∧ c ≤ 'f' then some (c.toNat - 'a'.toNat + 10)
  else if 'A' ≤ c ∧ c ≤ 'F' then some (c.toNat - 'A'.toNat + 10)
  else none

/-- The 16-bit unit that four hexadecimal digits denote. -/
def unitOf? (a b c d : Char) : Option Nat := do
  return (((← hexValue? a) * 16 + (← hexValue? b)) * 16 + (← hexValue? c)) * 16 + (← hexValue? d)

/-- The character that an escape letter denotes. -/
def escapedChar? : Char → Option Char
  | '"' => some '"'
  | '\\' => some '\\'
  | '/' => some '/'
  | 'b' => some '\x08'
  | 'f' => some '\x0c'
  | 'n' => some '\n'
  | 'r' => some '\r'
  | 't' => some '\t'
  | _ => none

/-- The character that two surrogates denote together. -/
def pairedChar (high low : Nat) : Char :=
  Char.ofNat (0x10000 + (high - 0xd800) * 0x400 + (low - 0xdc00))

/-! ## Depth -/

mutual
/-- How deep arrays and objects are nested. -/
def depth : Json → Nat
  | .array items => 1 + depthOfItems items
  | .object members => 1 + depthOfMembers members
  | _ => 0
/-- The depth of the deepest item. -/
def depthOfItems : List Json → Nat
  | [] => 0
  | j :: js => max j.depth (depthOfItems js)
/-- The depth of the deepest member. -/
def depthOfMembers : List (Option String × Json) → Nat
  | [] => 0
  | (_, j) :: ms => max j.depth (depthOfMembers ms)
end

mutual
/-- Whether every leaf and key can be read. -/
def isReadable : Json → Bool
  | .unreadable => false
  | .array items => areReadable items
  | .object members => haveReadable members
  | _ => true
/-- Whether every item can be read. -/
def areReadable : List Json → Bool
  | [] => true
  | j :: js => j.isReadable && areReadable js
/-- Whether every member can be read. -/
def haveReadable : List (Option String × Json) → Bool
  | [] => true
  | (key, j) :: ms => key.isSome && j.isReadable && haveReadable ms
end

end Json

end PortLogic
