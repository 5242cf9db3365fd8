import PortLogic.Func.Lookup
import PortLogic.Memory
import PortLogic.Number.Rounding

/-!
# PortLogic.Func.Apply — running a function

`compute?` is the part of the function table without memory, `Memory.step?` the part with it, and
`run` joins the two. Whatever a function yields, only a finite number is a value.
-/

namespace PortLogic

namespace Func

/-- Combines the whole parts of two numbers as 64-bit words. -/
def bitwise (op : Int64 → Int64 → Int64) (x y : Number) : Value :=
  some (Number.ofInt (op x.toInt64 y.toInt64).toInt)

/-- Shifts the whole part of a number; undefined for an amount below zero or above 63. -/
def shift (op : Int64 → Int64 → Int64) (x amount : Number) : Value :=
  let places := amount.toNatWithin 64
  if amount < 0 ∨ places = 64 then none
  else some (Number.ofInt (op x.toInt64 (Int64.ofNat places)).toInt)

/-- Looks a number up in a table listed as `x, y, x, y, …`. -/
def lookup (interpolate : Bool) (x : Number) (table : List Number) : Value :=
  (pairUp? table).bind (Lookup.inTable Number.totalLe interpolate x)

variable [Power]

/-- Runs a function without memory; none for a function with memory and for arguments whose number
does not fit. -/
def compute? (f : Func) (args : List Number) (now : Now) : Option Value :=
  match f, args with
  | .add, xs => some (some (Number.sum xs))
  | .sub, [x, y] => some (some (x - y))
  | .mul, xs => some (some (Number.product xs))
  | .div, [x, y] => some (if y == 0 then none else some (x / y))
  | .mod, [x, y] => some (if y == 0 then none else some (x % y))
  | .pow, [x, y] => some (some (Power.pow x y))
  | .and, xs => some (some (Number.ofBool (xs.all Number.isTrue)))
  | .or, xs => some (some (Number.ofBool (xs.any Number.isTrue)))
  | .not, [x] => some (some (Number.ofBool !x.isTrue))
  | .xor, [x, y] => some (some (Number.ofBool (x.isTrue != y.isTrue)))
  | .bitAnd, [x, y] => some (bitwise (· &&& ·) x y)
  | .bitOr, [x, y] => some (bitwise (· ||| ·) x y)
  | .bitXor, [x, y] => some (bitwise (· ^^^ ·) x y)
  | .bitNot, [x] => some (some (Number.ofInt (~~~x.toInt64).toInt))
  | .shl, [x, y] => some (shift (· <<< ·) x y)
  | .shr, [x, y] => some (shift (· >>> ·) x y)
  | .select, [condition, x, y] => some (some (if condition.isTrue then x else y))
  | .eq, [x, y] => some (some (Number.ofBool (x == y)))
  | .gt, [x, y] => some (some (Number.ofBool (y < x)))
  | .gte, [x, y] => some (some (Number.ofBool (y ≤ x)))
  | .lt, [x, y] => some (some (Number.ofBool (x < y)))
  | .lte, [x, y] => some (some (Number.ofBool (x ≤ y)))
  | .min, x :: xs => some (some (xs.foldl Number.min x))
  | .max, x :: xs => some (some (xs.foldl Number.max x))
  | .avg, xs => some (some (Number.mean xs))
  | .abs, [x] => some (some x.abs)
  | .sgn, [x] => some (some (if 0 < x then 1 else if x < 0 then -1 else 0))
  | .floor, [x] => some (some x.floor)
  | .ceil, [x] => some (some x.ceil)
  | .round, [x] => some (some x.roundHalfAway)
  | .round, [x, places] =>
    some (some (Decimals.roundTo x (places.toIntWithin (-Decimals.maxPlaces) Decimals.maxPlaces)))
  | .time, [] => some (now.second.map Number.ofNat)
  | .timeMs, [] => some (now.wall.map Number.ofNat)
  | .lut, x :: table => some (lookup false x table)
  | .lutLi, x :: table => some (lookup true x table)
  | _, _ => none

/-- Runs a function on defined arguments, none for arguments or a memory that do not fit. -/
def run? (f : Func) (args : List Number) (memory : Memory) (now : Now) :
    Option (Value × Memory) :=
  match f.compute? args now with
  | some value => some (value, memory)
  | none => memory.step? now.uptime f args

/-- Runs a function on defined arguments. What does not fit is undefined and changes nothing. -/
def run (f : Func) (args : List Number) (memory : Memory) (now : Now) : Value × Memory :=
  match f.run? args memory now with
  | some (value, next) => (value.bind Number.finite?, next)
  | none => (none, memory)

/-- Runs a function that accepts undefined arguments, none for arguments that do not fit. -/
def tolerate? (f : Func) (args : List Value) : Option Value :=
  match f, args with
  | .available, [x] => some (some (Number.ofBool (x.bind Number.finite?).isSome))
  | .default, [x, fallback] => some ((x.bind Number.finite?).or (fallback.bind Number.finite?))
  | _, _ => none

end Func

end PortLogic
