import PortLogic.Expr.Eval

/-!
# PortLogic.Filter — smoothing sampled values

A filter keeps a window of the last samples and yields nothing until the window is full. A boolean
port takes the majority of the window, whatever the kind of the filter.
-/

namespace PortLogic

/-- How a filter smooths. -/
inductive FilterKind where
  | none
  | median
  | average
deriving DecidableEq

namespace FilterKind

/-- The kind in words. -/
def text : FilterKind → String
  | none => "None"
  | median => "Median"
  | average => "Average"

end FilterKind

/-- A filter with the samples in its window, oldest first. -/
structure Filter where
  kind : FilterKind
  width : Nat
  window : List Number
deriving DecidableEq

namespace Filter

/-- The widest window. -/
def maxWidth : Nat := 32

/-- A filter with an empty window, its width held between one and the widest. -/
def ofWidth (kind : FilterKind) (width : Nat) : Filter :=
  ⟨kind, max 1 (min maxWidth width), []⟩

/-- Whether the filter alters samples. -/
def isActive (f : Filter) : Bool :=
  f.kind ≠ .none

/-- Forgets the samples. -/
def reset (f : Filter) : Filter :=
  { f with window := [] }

/-- The window after a further sample. -/
def slide (f : Filter) (sample : Number) : List Number :=
  let longer := f.window ++ [sample]
  longer.drop (longer.length - f.width)

/-- One when more than half of the samples are true. -/
def majority (width : Nat) (window : List Number) : Number :=
  Number.ofBool (width < (window.filter Number.isTrue).length * 2)

variable [Power]

/-- The rounded mean of a window, then rounded like the read transform of the port. -/
def roundedMean (transform : Option Expr) (window : List Number) : Number :=
  let mean := Decimals.roundByMagnitude (Number.mean window)
  (transform.bind fun e => e.roundLike mean).getD mean

/-- What a full window yields. -/
def summary (f : Filter) (boolean : Bool) (transform : Option Expr)
    (window : List Number) : Value :=
  if boolean then some (majority f.width window)
  else
    match f.kind with
    | .none => window.getLast?
    | .median => Number.median? window
    | .average => some (roundedMean transform window)

/-- Takes a sample and yields the filtered value. -/
def push (f : Filter) (sample : Number) (boolean : Bool) (transform : Option Expr) :
    Value × Filter :=
  if f.isActive then
    let window := f.slide sample
    let value := if window.length < f.width then none else f.summary boolean transform window
    (value, { f with window := window })
  else
    (some sample, f)

end Filter

end PortLogic
