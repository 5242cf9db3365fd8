import PortLogic.Driver

/-!
# PortLogic.Device.Digital — ports on digital pins

A high level reads as one and a low level as zero. An inverted input swaps them, for wiring that
pulls the pin low. An output reads the level written last.
-/

namespace PortLogic

/-- States of type `π` act as pins that are read. -/
class InputPin (π : Type) where
  /-- Whether the level is high; none when the pin cannot be read. -/
  isHigh? : π → Option Bool

/-- States of type `π` act as pins that are written. -/
class OutputPin (π : Type) where
  /-- Sets the level, or fails with the kind of the fault. -/
  setLevel : π → Bool → Except String Unit × π

/-- An input on a pin. -/
structure DigitalInput (π : Type) where
  pin : π
  inverted : Bool

/-- An output on a pin; the level is unknown until the first write. -/
structure DigitalOutput (π : Type) where
  pin : π
  level : Option Bool

instance {π : Type} [InputPin π] : Driver (DigitalInput π) where
  read d _ := ((InputPin.isHigh? d.pin).map fun high => Number.ofBool (high != d.inverted), d)
  write d _ := (.ok (), d)

namespace DigitalOutput

variable {π : Type} [OutputPin π]

/-- Sets the level that the truth of a value asks for. -/
def write (d : DigitalOutput π) (x : Number) : Except String Unit × DigitalOutput π :=
  match OutputPin.setLevel d.pin x.isTrue with
  | (.error fault, pin) => (.error s!"Error setting the pin level: {fault}", { d with pin })
  | (.ok (), pin) => (.ok (), ⟨pin, some x.isTrue⟩)

end DigitalOutput

instance {π : Type} [OutputPin π] : Driver (DigitalOutput π) where
  read d _ := (d.level.map Number.ofBool, d)
  write := DigitalOutput.write

end PortLogic
