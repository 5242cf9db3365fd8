import PortLogic.Expr

/-!
# PortLogic.Triggers — what makes an expression worth evaluating

A set of triggers: slots of the port table, the passing of a millisecond and the change of the
wall-clock second. Triggers are numbered below sixty-four and a set of them is a bit mask; the two
clock triggers come after the slots.
-/

namespace PortLogic

/-- A set of triggers. -/
structure Triggers where
  bits : Nat
deriving DecidableEq

namespace Triggers

/-- How many ports can be registered at a time. -/
def maxPorts : Nat := 62

/-- No trigger. -/
def none : Triggers := ⟨0⟩

/-- The trigger with a number alone: for a number below `maxPorts`, that of a slot. -/
def only (trigger : Nat) : Triggers := ⟨1 <<< trigger⟩

/-- The passing of a millisecond. -/
def millisecond : Triggers := only 62

/-- The change of the wall-clock second. -/
def second : Triggers := only 63

instance : Union Triggers := ⟨fun a b => ⟨a.bits ||| b.bits⟩⟩

instance : Inter Triggers := ⟨fun a b => ⟨a.bits &&& b.bits⟩⟩

/-- Whether a trigger is in the set. -/
def contains (s : Triggers) (trigger : Nat) : Bool :=
  s.bits.testBit trigger

/-- Whether two sets share a trigger. -/
def meets (s t : Triggers) : Bool :=
  s ∩ t ≠ none

/-- The set when a condition holds. -/
def when (condition : Bool) (s : Triggers) : Triggers :=
  if condition then s else none

/-- The union of a list of sets. -/
def unionAll (sets : List Triggers) : Triggers :=
  sets.foldl (· ∪ ·) none

/-- The triggers in the set, in ascending order. -/
def toList (s : Triggers) : List Nat :=
  (List.range 64).filter s.contains

end Triggers

namespace Expr

/-- The slots of the ports that an expression references; unknown ports have none. -/
def portTriggers (slotOf : String → Option Nat) (e : Expr) : Triggers :=
  Triggers.unionAll ((e.ports.filterMap slotOf).map Triggers.only)

/-- Everything that makes an expression worth evaluating again. -/
def triggers (slotOf : String → Option Nat) (e : Expr) : Triggers :=
  e.portTriggers slotOf ∪ Triggers.when e.readsSecond Triggers.second ∪
    Triggers.when e.readsMillisecond Triggers.millisecond

end Expr

end PortLogic
