import PortLogic.Time
import PortLogic.Value

/-!
# PortLogic.Driver — the hardware side of a port

A driver is a state with two transitions: reading a raw sample and writing a value. Either may
change the state, and a write may be refused with a reason.
-/

namespace PortLogic

/-- States of type `δ` act as the hardware of ports. -/
class Driver (δ : Type) where
  /-- Reads a raw sample; undefined when there is no valid one. -/
  read : δ → Now → Value × δ
  /-- Writes a value, or refuses it with a reason. -/
  write : δ → Number → Except String Unit × δ

end PortLogic
