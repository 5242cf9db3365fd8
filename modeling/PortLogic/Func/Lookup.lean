/-!
# PortLogic.Func.Lookup — tables of points

Looks a number up in a table of `(x, y)` points, sorted by `x` on every look-up. An `x` below the
first point yields the `y` of the second one. Between two points the nearer one wins, a tie going
to the larger `x`; or the `y` is interpolated. The rule is written for every kind of number with
arithmetic and an order, so that it can be read over the rationals too.
-/

namespace PortLogic

namespace Lookup

variable {α : Type} [LT α] [LE α] [DecidableLT α] [DecidableLE α]

/-- The two neighbouring points around `x`. -/
def bracket (x : α) : List (α × α) → Option ((α × α) × (α × α))
  | p :: q :: rest => if p.1 ≤ x ∧ x < q.1 then some (p, q) else bracket x (q :: rest)
  | _ => none

variable [Add α] [Sub α] [Mul α] [Div α]

/-- The value at `x` on the line through two points. -/
def onLine (x : α) (p q : α × α) : α :=
  p.2 + (x - p.1) * (q.2 - p.2) / (q.1 - p.1)

/-- The value at `x` of the nearer of two points, of the second one on a tie. -/
def nearer (x : α) (p q : α × α) : α :=
  if x - p.1 < q.1 - x then p.2 else q.2

/-- Looks `x` up in points that are sorted. -/
def inSorted (interpolate : Bool) (x : α) (points : List (α × α)) : Option α :=
  match points.head?, points.getLast? with
  | some first, some last =>
    if x < first.1 then points[1]?.map (·.2)
    else if last.1 ≤ x then some last.2
    else
      (bracket x points).map fun (p, q) => if interpolate then onLine x p q else nearer x p q
  | _, _ => none

/-- Looks `x` up in points of any order; `before` orders their first parts. -/
def inTable (before : α → α → Bool) (interpolate : Bool) (x : α) (points : List (α × α)) :
    Option α :=
  inSorted interpolate x (points.mergeSort fun p q => before p.1 q.1)

end Lookup

end PortLogic
