import PortLogic.Device.Digital
import PortLogic.Device.Pwm

/-!
# PortLogic.Device.Simulated — devices without hardware

Devices that the world drives by hand: what they sense and whether they are broken can be changed
at any time, and everything that reaches them is logged.
-/

namespace PortLogic

namespace Simulated

/-- What reaches a device. -/
inductive Signal where
  | number (x : Number)
  | level (high : Bool)
  | duty (duty : Nat)

/-- The world around a device. -/
structure World where
  sense : Value
  broken : Bool
  log : List Signal

namespace World

/-- Logs a signal, unless the device is broken. -/
def receive (w : World) (s : Signal) : Except String Unit × World :=
  if w.broken then (.error "Other", w) else (.ok (), { w with log := w.log ++ [s] })

end World

instance : InputPin World where
  isHigh? w := if w.broken then none else w.sense.map Number.isTrue

instance : OutputPin World where
  setLevel w high := w.receive (.level high)

/-- A pulse-width channel with its largest duty. -/
structure Channel where
  world : World
  max : UInt16

instance : PwmChannel Channel where
  maxDuty := Channel.max
  setDuty c duty := (c.world.receive (.duty duty)).map id fun world => { c with world }

/-- A sensor that may also be written, within a limit. -/
structure Sensor where
  world : World
  failBelow : Option Number

instance : Driver Sensor where
  read s _ := (s.world.sense, s)
  write s x :=
    if s.world.broken ∨ s.failBelow.any (fun limit => x < limit) then
      (.error "rejected by the device", s)
    else
      (.ok (), { s with world := { s.world with log := s.world.log ++ [.number x] } })

end Simulated

/-- A simulated device. -/
inductive Simulated where
  | sensor (s : Simulated.Sensor)
  /-- Reads a list of values, one at a time. -/
  | script (reads : List Value)
  /-- Reads the sum of both clocks. -/
  | clock
  | digitalInput (d : DigitalInput Simulated.World)
  | digitalOutput (d : DigitalOutput Simulated.World)
  | pwm (d : PwmOutput Simulated.Channel)

namespace Simulated

/-- Reads a sample. -/
def read : Simulated → Now → Value × Simulated
  | .sensor s, now => (Driver.read s now).map id .sensor
  | .script [], _ => (none, .script [])
  | .script (x :: rest), _ => (x, .script rest)
  | .clock, now => (some (Number.ofNat now.uptime + Number.ofNat (now.wall.getD 0)), .clock)
  | .digitalInput d, now => (Driver.read d now).map id .digitalInput
  | .digitalOutput d, now => (Driver.read d now).map id .digitalOutput
  | .pwm d, now => (Driver.read d now).map id .pwm

/-- Writes a value. -/
def write : Simulated → Number → Except String Unit × Simulated
  | .sensor s, x => (Driver.write s x).map id .sensor
  | .script reads, _ => (.ok (), .script reads)
  | .clock, _ => (.ok (), .clock)
  | .digitalInput d, x => (Driver.write d x).map id .digitalInput
  | .digitalOutput d, x => (Driver.write d x).map id .digitalOutput
  | .pwm d, x => (Driver.write d x).map id .pwm

instance : Driver Simulated := ⟨read, write⟩

/-- The world around a device, for those that have one. -/
def world? : Simulated → Option World
  | .sensor s => some s.world
  | .script _ | .clock => none
  | .digitalInput d => some d.pin
  | .digitalOutput d => some d.pin
  | .pwm d => some d.channel.world

/-- Changes the world around a device. -/
def adjust (f : World → World) : Simulated → Simulated
  | .sensor s => .sensor { s with world := f s.world }
  | .script reads => .script reads
  | .clock => .clock
  | .digitalInput d => .digitalInput { d with pin := f d.pin }
  | .digitalOutput d => .digitalOutput { d with pin := f d.pin }
  | .pwm d => .pwm { d with channel := { d.channel with world := f d.channel.world } }

/-- What has reached a device since its log was cleared. -/
def log (d : Simulated) : List Signal :=
  (d.world?.map World.log).getD []

/-- Clears the log. -/
def clearLog : Simulated → Simulated :=
  adjust fun w => { w with log := [] }

end Simulated

end PortLogic
