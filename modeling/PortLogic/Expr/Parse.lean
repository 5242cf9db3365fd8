import PortLogic.Expr
import PortLogic.PortId
import PortLogic.Text.Blank

/-!
# PortLogic.Expr.Parse — reading expressions

An expression is a number, `true` or `false`, a port reference `$id` (a bare `$` is the port that
owns the expression) or a call `NAME(argument, …)`. ASCII blanks may surround every expression.

1. **Spans**: a stretch of the source with the byte offset of its start, so that each error carries
   its absolute position.
2. **Splitting**: the arguments of a call stand between the commas outside inner parentheses.
3. **Reading**: `Expr.read` looks at the first character of a trimmed span, then for a parenthesis
   anywhere in it. The recursion is on the calls that may still be nested.
-/

namespace PortLogic

/-! ## Errors -/

/-- Why a source is no expression. -/
inductive ParseFault where
  | empty
  | invalidToken
  | unexpectedCharacter
  | unknownFunction
  | invalidArgumentCount
  | emptyArgument
  | unbalancedParentheses
  | tooDeep
deriving DecidableEq

namespace ParseFault

/-- The fault in words. -/
def text : ParseFault → String
  | empty => "empty expression"
  | invalidToken => "invalid token"
  | unexpectedCharacter => "unexpected character"
  | unknownFunction => "unknown function"
  | invalidArgumentCount => "invalid number of arguments"
  | emptyArgument => "empty argument"
  | unbalancedParentheses => "unbalanced parentheses"
  | tooDeep => "too deeply nested call"

end ParseFault

/-- A fault, the text it is about, and its byte offset in the source. -/
structure ParseError where
  fault : ParseFault
  token : Option String
  position : Nat
deriving DecidableEq

namespace ParseError

/-- The error in words. -/
def message (e : ParseError) : String :=
  match e.token with
  | some token => s!"{e.fault.text} `{token}` at position {e.position}"
  | none => s!"{e.fault.text} at position {e.position}"

end ParseError

/-! ## Spans -/

/-- A stretch of a source, and the byte offset at which it starts. -/
structure Span where
  start : Nat
  chars : List Char
deriving DecidableEq

namespace Span

/-- The whole of a source. -/
def ofSource (source : String) : Span :=
  ⟨0, source.toList⟩

/-- The byte offset of the end. -/
def stop (s : Span) : Nat :=
  s.start + Text.byteCount s.chars

/-- The text of a span. -/
def text (s : Span) : String :=
  String.ofList s.chars

/-- A span without its first characters that satisfy a predicate. -/
def dropWhile (p : Char → Bool) (s : Span) : Span :=
  ⟨s.start + Text.byteCount (s.chars.takeWhile p), s.chars.dropWhile p⟩

/-- A span without the ASCII blanks around it; a blank span is trimmed to its end. -/
def trim (s : Span) : Span :=
  let rest := s.dropWhile Text.isAsciiBlank
  ⟨rest.start, (rest.chars.reverse.dropWhile Text.isAsciiBlank).reverse⟩

/-- Splits the text after an opening parenthesis at the commas outside inner parentheses, up to the
closing one: the pieces, and what follows. None when there is no closing one. -/
def splitArguments : Nat → List Char → Option (List (List Char) × List Char)
  | _, [] => none
  | depth, c :: cs =>
    let keep (inner : Nat) := (splitArguments inner cs).map fun (pieces, rest) =>
      match pieces with
      | [] => ([[c]], rest)
      | piece :: more => ((c :: piece) :: more, rest)
    if c = '(' then keep (depth + 1)
    else if c = ')' then if depth = 0 then some ([[]], cs) else keep (depth - 1)
    else if c = ',' ∧ depth = 0 then
      (splitArguments 0 cs).map fun (pieces, rest) => ([] :: pieces, rest)
    else keep depth

/-- The spans of pieces that one character separates, the first at an offset. -/
def ofPieces : Nat → List (List Char) → List Span
  | _, [] => []
  | start, piece :: pieces =>
    ⟨start, piece⟩ :: ofPieces (start + Text.byteCount piece + 1) pieces

/-- The arguments in a list of pieces; a single blank piece is no argument. -/
def arguments (start : Nat) (pieces : List (List Char)) : List Span :=
  match pieces with
  | [piece] => if piece.all Text.isAsciiBlank then [] else [⟨start, piece⟩]
  | _ => ofPieces start pieces

end Span

namespace Expr

/-- How deep calls may be nested. -/
def maxNesting : Nat := 32

/-! ## Numbers -/

/-- The index of the first character that cannot stand in a number. Digits may stand anywhere, a
sign only in front, and one point. -/
def badDigit? : Bool → Nat → List Char → Option Nat
  | _, _, [] => none
  | dot, index, c :: cs =>
    if (c = '+' ∨ c = '-') ∧ index = 0 then badDigit? dot (index + 1) cs
    else if c = '.' ∧ dot = false then badDigit? true (index + 1) cs
    else if c.isDigit then badDigit? dot (index + 1) cs
    else some index

/-- The decimal that digits around a point denote. -/
def decimalOf (cs : List Char) : Decimal :=
  let digits := cs.filter Char.isDigit
  let fraction := (cs.dropWhile (· ≠ '.')).drop 1
  ⟨digits.foldl (fun n c => 10 * n + (c.toNat - '0'.toNat)) 0, -(fraction.length : Int)⟩

/-- Reads a number or a truth value. -/
def readLiteral (s : Span) : Except ParseError Expr :=
  let invalid (index : Nat) : ParseError := ⟨.invalidToken, some s.text, s.start + index⟩
  if s.chars = ['t', 'r', 'u', 'e'] then .ok (.literal 1)
  else if s.chars = ['f', 'a', 'l', 's', 'e'] then .ok (.literal 0)
  else
    match badDigit? false 0 s.chars with
    | some index => .error (invalid index)
    | none =>
      let value := Number.ofDecimal (s.chars.head? = some '-') (decimalOf s.chars)
      if s.chars.any Char.isDigit ∧ value.isFinite then .ok (.literal value)
      else .error (invalid 0)

/-! ## References and calls -/

/-- Reads what follows the `$` of a reference. -/
def readReference (owner : String) (s : Span) : Except ParseError Expr :=
  let id := s.chars.drop 1
  if id = [] then .ok (.port owner)
  else
    match PortId.invalidAt? id with
    | some index => .error ⟨.invalidToken, some s.text, s.start + 1 + index⟩
    | none => .ok (.port (String.ofList id))

/-- The index of the first character that cannot stand in a function name. -/
def badNameChar? (name : List Char) : Option Nat :=
  name.findIdx? fun c => !(c.isAlphanum || c = '_')

/-- Reads the name of a call, the part of a trimmed span before its first parenthesis. -/
def readName (s : Span) : Except ParseError (Func × Span) :=
  let front := s.chars.takeWhile (· ≠ '(')
  let name : Span := ⟨s.start, (front.reverse.dropWhile Text.isAsciiBlank).reverse⟩
  if name.chars = [] then
    .error ⟨.unexpectedCharacter, some "(", s.start + Text.byteCount front⟩
  else
    match badNameChar? name.chars with
    | some index => .error ⟨.invalidToken, some name.text, name.start + index⟩
    | none =>
      match Func.ofName? name.chars with
      | none => .error ⟨.unknownFunction, some name.text, name.start⟩
      | some func => .ok (func, name)

/-- The part of a call after its name: the spans of the arguments. Nothing may follow the closing
parenthesis; a first byte that is no character of its own is shown as U+FFFD. -/
def readParentheses (s : Span) : Except ParseError (List Span) :=
  let front := s.chars.takeWhile (· ≠ '(')
  let opening := s.start + Text.byteCount front
  match Span.splitArguments 0 ((s.chars.dropWhile (· ≠ '(')).drop 1) with
  | none => .error ⟨.unbalancedParentheses, some "(", opening⟩
  | some (pieces, []) => .ok (Span.arguments (opening + 1) pieces)
  | some (_, rest@(c :: _)) =>
    let shown := if c.toNat < 128 then c else '\ufffd'
    .error ⟨.unexpectedCharacter, some shown.toString, s.stop - Text.byteCount rest⟩

/-- Reads the arguments of a call in order. -/
def readArguments (read : Span → Except ParseError Expr) : List Span → Except ParseError (List Expr)
  | [] => .ok []
  | s :: rest => do
    let s := s.trim
    if s.chars = [] then .error ⟨.emptyArgument, none, s.start⟩
    let e ← read s
    let es ← readArguments read rest
    return e :: es

/-- Reads an expression of which the calls may be nested `room` deep. -/
def read (owner : String) (room : Nat) (s : Span) : Except ParseError Expr :=
  let s := s.trim
  match s.chars with
  | [] => .error ⟨.empty, none, s.start⟩
  | '$' :: _ => readReference owner s
  | _ =>
    if s.chars.contains '(' then do
      let (func, name) ← readName s
      match room with
      | 0 => .error ⟨.tooDeep, some name.text, name.start⟩
      | room + 1 =>
        let args ← readArguments (read owner room) (← readParentheses s)
        if func.arity.accepts args.length then return fresh func args
        else .error ⟨.invalidArgumentCount, some name.text, name.start⟩
    else
      let front := s.chars.takeWhile fun c => c ≠ ')' ∧ c ≠ ','
      let position := s.start + Text.byteCount front
      match s.chars.dropWhile fun c => c ≠ ')' ∧ c ≠ ',' with
      | [] => readLiteral s
      | c :: _ =>
        let fault := if c = ')' then .unbalancedParentheses else .unexpectedCharacter
        .error ⟨fault, some c.toString, position⟩

/-- Reads a source as an expression of a port. -/
def parse (owner source : String) : Except ParseError Expr :=
  read owner maxNesting (Span.ofSource source)

end Expr

end PortLogic
