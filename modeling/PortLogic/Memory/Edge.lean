import PortLogic.Value

/-!
# PortLogic.Memory.Edge — functions that compare with the value before

Edges and running totals remember the previous value, a hysteresis remembers on which side it is.
-/

namespace PortLogic

namespace Memory

/-- The value seen last. -/
structure Previous where
  last : Option Number
deriving DecidableEq

namespace Previous

/-- True when the value has grown. -/
def rising (m : Previous) (value : Number) : Value × Previous :=
  let edge := match m.last with
    | none => false
    | some last => decide (last < value)
  (some (Number.ofBool edge), ⟨some value⟩)

/-- True when the value has shrunk. -/
def falling (m : Previous) (value : Number) : Value × Previous :=
  let edge := match m.last with
    | none => false
    | some last => decide (value < last)
  (some (Number.ofBool edge), ⟨some value⟩)

/-- Adds the change of the value to an accumulator, or only a change that is not negative. -/
def accumulate (m : Previous) (value accumulator : Number) (incrementsOnly : Bool) :
    Value × Previous :=
  let delta := match m.last with
    | none => 0
    | some last => value - last
  let total := if incrementsOnly ∧ delta < 0 then accumulator else accumulator + delta
  (some total, ⟨some value⟩)

end Previous

/-- Which side of a hysteresis the value was last found on. -/
structure Hysteresis where
  high : Bool
deriving DecidableEq

namespace Hysteresis

/-- Switches up above the upper threshold and down below the lower one. -/
def step (m : Hysteresis) (value low high : Number) : Value × Hysteresis :=
  let next := if m.high then !decide (value < low) else decide (high < value)
  (some (Number.ofBool next), ⟨next⟩)

end Hysteresis

end Memory

end PortLogic
