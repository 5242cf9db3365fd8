/-!
# PortLogic.Func — the built-in functions

The functions that an expression can call: their names, how many arguments each takes, and what
makes a call of each worth evaluating again.
-/

namespace PortLogic

/-- How many arguments a function takes. -/
inductive Arity where
  | exactly (count : Nat)
  | atLeast (count : Nat)
  | between (low high : Nat)
deriving DecidableEq

namespace Arity

/-- Whether a number of arguments fits. -/
def accepts : Arity → Nat → Bool
  | .exactly count, n => n = count
  | .atLeast count, n => count ≤ n
  | .between low high, n => low ≤ n ∧ n ≤ high

/-- The arity in words. -/
def text : Arity → String
  | .exactly count => s!"exactly {count}"
  | .atLeast count => s!"at least {count}"
  | .between low high => s!"{low} to {high}"

end Arity

/-- A built-in function. -/
inductive Func where
  | add | sub | mul | div | mod | pow
  | and | or | not | xor
  | bitAnd | bitOr | bitXor | bitNot | shl | shr
  | select
  | eq | gt | gte | lt | lte
  | min | max | avg
  | abs | sgn
  | floor | ceil | round
  | time | timeMs
  | held | delay | sample | freeze
  | deriv | integ
  | fmAvg | fmMedian
  | available | default
  | rising | falling | acc | accInc
  | hyst | sequence
  | lut | lutLi
deriving DecidableEq

namespace Func

/-- Every function, in table order. -/
def all : List Func :=
  [add, sub, mul, div, mod, pow, and, or, not, xor, bitAnd, bitOr, bitXor, bitNot, shl, shr, select,
    eq, gt, gte, lt, lte, min, max, avg, abs, sgn, floor, ceil, round, time, timeMs, held, delay,
    sample, freeze, deriv, integ, fmAvg, fmMedian, available, default, rising, falling, acc, accInc,
    hyst, sequence, lut, lutLi]

/-- The name in expressions. -/
def name : Func → String
  | add => "ADD"
  | sub => "SUB"
  | mul => "MUL"
  | div => "DIV"
  | mod => "MOD"
  | pow => "POW"
  | and => "AND"
  | or => "OR"
  | not => "NOT"
  | xor => "XOR"
  | bitAnd => "BITAND"
  | bitOr => "BITOR"
  | bitXor => "BITXOR"
  | bitNot => "BITNOT"
  | shl => "SHL"
  | shr => "SHR"
  | select => "IF"
  | eq => "EQ"
  | gt => "GT"
  | gte => "GTE"
  | lt => "LT"
  | lte => "LTE"
  | min => "MIN"
  | max => "MAX"
  | avg => "AVG"
  | abs => "ABS"
  | sgn => "SGN"
  | floor => "FLOOR"
  | ceil => "CEIL"
  | round => "ROUND"
  | time => "TIME"
  | timeMs => "TIMEMS"
  | held => "HELD"
  | delay => "DELAY"
  | sample => "SAMPLE"
  | freeze => "FREEZE"
  | deriv => "DERIV"
  | integ => "INTEG"
  | fmAvg => "FMAVG"
  | fmMedian => "FMEDIAN"
  | available => "AVAILABLE"
  | default => "DEFAULT"
  | rising => "RISING"
  | falling => "FALLING"
  | acc => "ACC"
  | accInc => "ACCINC"
  | hyst => "HYST"
  | sequence => "SEQUENCE"
  | lut => "LUT"
  | lutLi => "LUTLI"

/-- The function with a name, whatever the case of its letters. -/
def ofName? (name : List Char) : Option Func :=
  all.find? fun f => f.name.toList = name.map Char.toUpper

/-- How many arguments the function takes. -/
def arity : Func → Arity
  | time | timeMs => .exactly 0
  | not | bitNot | abs | sgn | floor | ceil | available | rising | falling => .exactly 1
  | round => .between 1 2
  | sub | div | mod | pow | xor | bitAnd | bitOr | bitXor | shl | shr | eq | gt | gte | lt | lte
  | delay | sample | freeze | deriv | default | acc | accInc => .exactly 2
  | add | mul | and | or | min | max | avg | sequence => .atLeast 2
  | select | held | integ | fmAvg | fmMedian | hyst => .exactly 3
  | lut | lutLi => .atLeast 5

/-- Whether the function runs on undefined arguments too. -/
def acceptsUndefined : Func → Bool
  | available | default => true
  | _ => false

/-- Whether the result depends on the wall-clock second. -/
def readsSecond : Func → Bool
  | time => true
  | _ => false

/-- Whether the result depends on the passing milliseconds. -/
def readsMillisecond : Func → Bool
  | timeMs | sample | freeze | held | delay | deriv | integ | sequence | fmAvg | fmMedian => true
  | _ => false

/-- Whether the function rounds its first argument. -/
def isRounding : Func → Bool
  | floor | ceil | round => true
  | _ => false

end Func

end PortLogic
