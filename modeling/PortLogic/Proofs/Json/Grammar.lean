import PortLogic.Json
import PortLogic.Proofs.Number.Decimal

/-!
# PortLogic.Proofs.Json.Grammar — the texts of a value

The grammar of JSON gives texts to values: a number is written in decimals and stands for the number
nearest to them, a text in quotes may hold escapes, and blanks may stand around every value, key and
mark. What storage relies on is told in these terms (`LawfulJsonFormat`): a reader accepts every
text of a value and takes it for that value, and a writer writes a text of the value. How the text
is laid out, and which of its texts a value gets, is up to the library.
-/

namespace PortLogic

-- powers of naturals are the built-in ones, whatever algebra is in scope
attribute [local instance (2000)] instPowNat

namespace Json

/-! ## Numbers -/

/-- The sign that stands before the digits. -/
def sign (negative : Bool) : List Char :=
  if negative then ['-'] else []

/-- What may stand before the digits of an exponent, and whether it makes the exponent negative. -/
def exponentSigns : List (List Char × Bool) :=
  [([], false), (['+'], false), (['-'], true)]

/-- The text of an exponent: a mark, a sign or none, and digits. -/
inductive IsExponent : List Char → Int → Prop where
  | intro {mark : Char} {before ds : List Char} {negative : Bool} (hmark : mark = 'e' ∨ mark = 'E')
      (hsign : (before, negative) ∈ exponentSigns) (hdigits : ∀ c ∈ ds, c.isDigit = true)
      (hne : ds ≠ []) :
      IsExponent (mark :: (before ++ ds))
        (if negative then -(Nat.ofDigitChars 10 ds 0 : Int) else Nat.ofDigitChars 10 ds 0)

/-- The text of a number with a point or an exponent. It stands for the nearest number. -/
inductive IsReal : List Char → Number → Prop where
  | pointed {n : Numeral} (negative : Bool) (htrimmed : n.Trimmed) (hpoint : n.fraction ≠ none) :
      IsReal (sign negative ++ n.chars) (.ofDecimal negative n.decimal)
  | scaled {n : Numeral} {tail : List Char} {e : Int} (negative : Bool) (htrimmed : n.Trimmed)
      (htail : IsExponent tail e) :
      IsReal (sign negative ++ (n.chars ++ tail))
        (.ofDecimal negative ⟨n.decimal.digits, n.decimal.exponent + e⟩)

/-! ## Texts -/

/-- The ways to spell characters inside quotes: as they are, with an escape letter, as a unit of 16
bits, or as a pair of surrogates. -/
inductive Spells : List Char → List Char → Prop where
  | nil : Spells [] []
  | plain {c : Char} {cs s : List Char} (hquote : c ≠ '"') (hslash : c ≠ '\\')
      (hlow : ¬c.toNat < 32) (h : Spells cs s) : Spells (c :: cs) (c :: s)
  | letter {e c : Char} {cs s : List Char} (hletter : escapedChar? e = some c) (h : Spells cs s) :
      Spells ('\\' :: e :: cs) (c :: s)
  | unit {x y z w : Char} {n : Nat} {cs s : List Char} (hunit : unitOf? x y z w = some n)
      (hn : n < 0xd800 ∨ 0xe000 ≤ n) (h : Spells cs s) :
      Spells ('\\' :: 'u' :: x :: y :: z :: w :: cs) (Char.ofNat n :: s)
  | pair {x y z w x' y' z' w' : Char} {high low : Nat} {cs s : List Char}
      (hunit : unitOf? x y z w = some high) (hunit' : unitOf? x' y' z' w' = some low)
      (hhigh : 0xd800 ≤ high ∧ high < 0xdc00) (hlow : 0xdc00 ≤ low ∧ low < 0xe000)
      (h : Spells cs s) :
      Spells ('\\' :: 'u' :: x :: y :: z :: w :: '\\' :: 'u' :: x' :: y' :: z' :: w' :: cs)
        (pairedChar high low :: s)

/-! ## Values -/

/-- Nothing but blanks. -/
def AllBlank (cs : List Char) : Prop :=
  ∀ c ∈ cs, isBlank c = true

/-- A member of an object as it is written: its key in quotes, a colon, and the text of its value.
-/
structure MemberText where
  before : List Char
  spelling : List Char
  key : List Char
  after : List Char
  value : List Char
  json : Json
  before_blank : AllBlank before
  after_blank : AllBlank after
  spells : Spells spelling key

namespace MemberText

/-- The characters of a member. -/
def chars (m : MemberText) : List Char :=
  m.before ++ '"' :: (m.spelling ++ '"' :: (m.after ++ ':' :: m.value))

/-- The member that is written. -/
def member (m : MemberText) : String × Json :=
  (String.ofList m.key, m.json)

end MemberText

/-- The texts of a value. -/
inductive IsText : List Char → Json → Prop where
  | null : IsText ['n', 'u', 'l', 'l'] .null
  | boolTrue : IsText ['t', 'r', 'u', 'e'] (.bool true)
  | boolFalse : IsText ['f', 'a', 'l', 's', 'e'] (.bool false)
  | integer {i : Int} (hlow : -(2 ^ (63 : Nat)) ≤ i) (hhigh : i < 2 ^ (64 : Nat)) :
      IsText (Number.integerText i).toList (.integer i)
  | real {cs : List Char} {x : Number} (h : IsReal cs x) (hfinite : x.isFinite = true) :
      IsText cs (.real x)
  | text {cs s : List Char} (h : Spells cs s) :
      IsText ('"' :: (cs ++ ['"'])) (.text (String.ofList s))
  | array {blanks : List Char} {items : List (List Char × Json)} (hblanks : AllBlank blanks)
      (hitems : ∀ item ∈ items, IsText item.1 item.2) :
      IsText ('[' :: (blanks ++ ([','].intercalate (items.map (·.1)) ++ [']'])))
        (.array (items.map (·.2)))
  | object {blanks : List Char} {members : List MemberText} (hblanks : AllBlank blanks)
      (hmembers : ∀ m ∈ members, IsText m.value m.json) :
      IsText ('\x7b' :: (blanks ++ ([','].intercalate (members.map MemberText.chars) ++ ['\x7d'])))
        (.record (members.map MemberText.member))
  | padded {before cs after : List Char} {j : Json} (hbefore : AllBlank before)
      (hafter : AllBlank after) (h : IsText cs j) : IsText (before ++ (cs ++ after)) j

/-- A value that can be written without a loss: its numbers are finite or integers of 64 bits, and
its leaves and keys can be read. -/
inductive Writable : Json → Prop where
  | null : Writable .null
  | bool (b : Bool) : Writable (.bool b)
  | integer {i : Int} (hlow : -(2 ^ (63 : Nat)) ≤ i) (hhigh : i < 2 ^ (64 : Nat)) :
      Writable (.integer i)
  | real {x : Number} (hfinite : x.isFinite = true) : Writable (.real x)
  | text (s : String) : Writable (.text s)
  | array {items : List Json} (hitems : ∀ j ∈ items, Writable j) : Writable (.array items)
  | record {members : List (String × Json)} (hmembers : ∀ m ∈ members, Writable m.2) :
      Writable (.record members)

/-- A member whose key can be read. -/
def keyed (member : String × Json) : Option String × Json :=
  (some member.1, member.2)

theorem record_eq (members : List (String × Json)) :
    record members = .object (members.map keyed) := rfl

theorem depth_array_le {items : List Json} {n : Nat} (h : ∀ j ∈ items, j.depth ≤ n) :
    (Json.array items).depth ≤ 1 + n := by
  have hitems : depthOfItems items ≤ n := by
    induction items with
    | nil => exact Nat.zero_le n
    | cons j items ih =>
      rcases List.forall_mem_cons.mp h with ⟨hj, hitems⟩
      exact Nat.max_le.mpr ⟨hj, ih hitems⟩
  exact Nat.add_le_add_left hitems 1

theorem depth_record_le {members : List (String × Json)} {n : Nat}
    (h : ∀ m ∈ members, m.2.depth ≤ n) : (record members).depth ≤ 1 + n := by
  have hmembers : depthOfMembers (members.map keyed) ≤ n := by
    induction members with
    | nil => exact Nat.zero_le n
    | cons m members ih =>
      rcases List.forall_mem_cons.mp h with ⟨hm, hmembers⟩
      exact Nat.max_le.mpr ⟨hm, ih hmembers⟩
  exact Nat.add_le_add_left hmembers 1

/-- How deep a reader lets arrays and objects be nested. -/
def maxNesting : Nat := 127

end Json

/-- What is relied on of a library for JSON text: texts are escaped and read without a loss, numbers
are written with enough digits, and decimals are read as the number nearest to them. A library that
reads decimals less exactly, to be faster, is not lawful. -/
class LawfulJsonFormat [JsonFormat] : Prop where
  /-- A text of a value is read as that value, as far as values may be nested. -/
  read_text {cs : List Char} {j : Json} (h : Json.IsText cs j)
    (hdepth : j.depth ≤ Json.maxNesting) : JsonFormat.read (String.ofList cs) = some j
  /-- A value that can be written without a loss is written as a text of it. -/
  write_text {j : Json} (h : j.Writable) : Json.IsText (JsonFormat.write j).toList j

/-- Reading undoes writing. -/
theorem JsonFormat.read_write [JsonFormat] [LawfulJsonFormat] {j : Json} (h : j.Writable)
    (hdepth : j.depth ≤ Json.maxNesting) : JsonFormat.read (JsonFormat.write j) = some j := by
  have hread := LawfulJsonFormat.read_text (LawfulJsonFormat.write_text h) hdepth
  rwa [String.ofList_toList] at hread

end PortLogic
