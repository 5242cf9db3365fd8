import PortLogic.Time
import PortLogic.Value

/-!
# PortLogic.Memory.Timed — functions that watch the clock

The private memories of the functions whose result depends on how long ago something happened, each
with its step: arguments and time in, a value and the next memory out.
-/

namespace PortLogic

namespace Memory

/-- The most entries that a memory keeps of its past. -/
def historyLimit : Nat := 32

/-- The changes of a value that wait for their delay to pass, oldest first. -/
structure Delay where
  last : Option Number
  queue : List (Number × Nat)
deriving DecidableEq

namespace Delay

/-- Queues a changed value; a full queue loses its oldest entry. -/
def record (m : Delay) (value : Number) (now : Nat) : List (Number × Nat) :=
  match m.last with
  | none => m.queue
  | some last =>
    if last == value then m.queue
    else
      let kept := if m.queue.length = historyLimit then m.queue.drop 1 else m.queue
      kept ++ [(value, now)]

/-- Releases the newest change that has waited long enough and drops every older one. -/
def step (m : Delay) (value delay : Number) (now : Nat) : Value × Delay :=
  let queue := m.record value now
  let (expired, waiting) := queue.span fun entry => delay ≤ elapsed entry.2 now
  (expired.getLast?.map (·.1), ⟨some value, waiting⟩)

end Delay

/-- The value latched last, and when. -/
structure Sample where
  latched : Option (Number × Nat)
deriving DecidableEq

namespace Sample

/-- Keeps the latched value for a period, then latches the current one. -/
def step (m : Sample) (value period : Number) (now : Nat) : Value × Sample :=
  match m.latched with
  | some (latched, since) =>
    if elapsed since now < period then (some latched, m) else (some value, ⟨some (value, now)⟩)
  | none => (some value, ⟨some (value, now)⟩)

end Sample

/-- The output of a freezing function, and since when it is held. -/
structure Freeze where
  output : Option Number
  frozenAt : Option Nat
deriving DecidableEq

namespace Freeze

/-- Follows the value, holding each new output. -/
def follow (m : Freeze) (value : Number) (now : Nat) : Value × Freeze :=
  if m.output == some value then (m.output, ⟨m.output, none⟩)
  else (some value, ⟨some value, some now⟩)

/-- Keeps a changed output for a duration. -/
def step (m : Freeze) (value duration : Number) (now : Nat) : Value × Freeze :=
  match m.frozenAt with
  | some since => if elapsed since now < duration then (m.output, m) else m.follow value now
  | none => m.follow value now

end Freeze

/-- The last value, and since when it has been seen without a change. -/
structure Held where
  last : Option (Number × Nat)
deriving DecidableEq

namespace Held

/-- Since when the current value has been seen. -/
def since (m : Held) (value : Number) (now : Nat) : Nat × Held :=
  match m.last with
  | some (last, start) => if last == value then (start, m) else (now, ⟨some (value, now)⟩)
  | none => (now, ⟨some (value, now)⟩)

/-- True once the value has been equal to the target for a duration. -/
def step (m : Held) (value target duration : Number) (now : Nat) : Value × Held :=
  let (start, next) := m.since value now
  (some (Number.ofBool (value == target && duration ≤ elapsed start now)), next)

end Held

/-- The last sample of a derivative or an integral, and when it was taken. -/
structure Slope where
  last : Option (Number × Nat)
deriving DecidableEq

namespace Slope

/-- Whether the sampling interval has passed. -/
def isDue (m : Slope) (sampling : Number) (now : Nat) : Bool :=
  match m.last with
  | none => true
  | some (_, since) => sampling ≤ elapsed since now

/-- The change per second since the last sample. -/
def derivative (m : Slope) (value sampling : Number) (now : Nat) : Value × Slope :=
  if m.isDue sampling now then
    let result := match m.last with
      | none => none
      | some (last, since) =>
        let seconds := elapsed since now / 1000
        if 0 < seconds then some ((value - last) / seconds) else none
    (result, ⟨some (value, now)⟩)
  else
    (none, m)

/-- Adds the area below the line from the last sample, by the trapezoidal rule. -/
def integral (m : Slope) (value accumulator sampling : Number) (now : Nat) : Value × Slope :=
  if m.isDue sampling now then
    let area := match m.last with
      | none => 0
      | some (last, since) => (value + last) * elapsed since now / 1000 / 2
    (some (accumulator + area), ⟨some (value, now)⟩)
  else
    (none, m)

end Slope

end Memory

end PortLogic
