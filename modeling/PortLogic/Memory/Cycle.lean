import PortLogic.Time
import PortLogic.Value

/-!
# PortLogic.Memory.Cycle — values in a repeating sequence

A sequence shows each of its values for a duration, over and over, from its first evaluation on.
-/

namespace PortLogic

/-- Splits a list into pairs; none of an odd number of elements. -/
def pairUp? {α : Type} : List α → Option (List (α × α))
  | [] => some []
  | [_] => none
  | x :: y :: rest => (pairUp? rest).map ((x, y) :: ·)

namespace Memory

/-- When the sequence started. -/
structure Cycle where
  anchor : Option Nat
deriving DecidableEq

namespace Cycle

/-- The value of the first pair whose running end lies past the offset. -/
def find (offset : Number) : Number → List (Number × Number) → Value
  | _, [] => none
  | start, (value, duration) :: rest =>
    let stop := start + duration
    if offset < stop then some value else find offset stop rest

/-- The value at an offset into the sequence, the last one past its end. -/
def valueAt (pairs : List (Number × Number)) (offset : Number) : Value :=
  (find offset 0 pairs).or (pairs.getLast?.map (·.1))

/-- Shows the value whose turn it is. Durations must not be negative, and must not all be zero. -/
def step (m : Cycle) (arguments : List Number) (now : Nat) : Value × Cycle :=
  match pairUp? arguments with
  | none => (none, m)
  | some pairs =>
    let period := Number.sum (pairs.map (·.2))
    if pairs.any (fun pair => pair.2 < 0) ∨ period ≤ 0 then (none, m)
    else
      let anchor := m.anchor.getD now
      (valueAt pairs (elapsed anchor now % period), ⟨some anchor⟩)

end Cycle

end Memory

end PortLogic
