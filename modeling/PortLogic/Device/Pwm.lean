import PortLogic.Driver

/-!
# PortLogic.Device.Pwm — ports on pulse-width channels

A value is a duty cycle in percent, rounded to a whole percent before it is written.
-/

namespace PortLogic

/-- States of type `χ` act as pulse-width channels. -/
class PwmChannel (χ : Type) where
  /-- The duty of a pulse that is always on. -/
  maxDuty : χ → UInt16
  /-- Sets the duty, or fails with the kind of the fault. -/
  setDuty : χ → Nat → Except String Unit × χ

/-- An output on a channel; the percentage is unknown until the first write. -/
structure PwmOutput (χ : Type) where
  channel : χ
  percent : Option Nat

namespace PwmOutput

variable {χ : Type} [PwmChannel χ]

/-- The largest duty cycle. -/
def maxPercent : Nat := 100

/-- The duty of a whole percentage. -/
def dutyOf (d : PwmOutput χ) (percent : Nat) : Nat :=
  percent * (PwmChannel.maxDuty d.channel).toNat / maxPercent

/-- Writes a duty cycle between zero and the largest one. -/
def write (d : PwmOutput χ) (x : Number) : Except String Unit × PwmOutput χ :=
  if 0 ≤ x ∧ x ≤ Number.ofNat maxPercent then
    let percent := x.roundHalfAway.toNatWithin maxPercent
    match PwmChannel.setDuty d.channel (d.dutyOf percent) with
    | (.error fault, channel) =>
      (.error s!"Error setting the duty cycle: {fault}", { d with channel })
    | (.ok (), channel) => (.ok (), ⟨channel, some percent⟩)
  else
    (.error s!"Duty cycle {x.plainText}% is outside of 0..=100%", d)

end PwmOutput

instance {χ : Type} [PwmChannel χ] : Driver (PwmOutput χ) where
  read d _ := (d.percent.map Number.ofNat, d)
  write := PwmOutput.write

end PortLogic
