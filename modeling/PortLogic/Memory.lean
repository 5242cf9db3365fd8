import PortLogic.Func
import PortLogic.Memory.Cycle
import PortLogic.Memory.Edge
import PortLogic.Memory.Window

/-!
# PortLogic.Memory — the private memory of a call

Each call in an expression owns a memory of the kind that its function needs, and none is shared.
`Memory.step?` runs one step of the function on its arguments; it is undefined for arguments or a
memory that do not belong to the function.
-/

namespace PortLogic

/-- The memory of a call. -/
inductive Memory where
  | none
  | delay (m : Memory.Delay)
  | sample (m : Memory.Sample)
  | freeze (m : Memory.Freeze)
  | held (m : Memory.Held)
  | slope (m : Memory.Slope)
  | window (m : Memory.Window)
  | previous (m : Memory.Previous)
  | hysteresis (m : Memory.Hysteresis)
  | cycle (m : Memory.Cycle)
deriving DecidableEq

namespace Memory

/-- The memory that a call of a function starts with. -/
def initial : Func → Memory
  | .delay => .delay ⟨Option.none, []⟩
  | .sample => .sample ⟨Option.none⟩
  | .freeze => .freeze ⟨Option.none, Option.none⟩
  | .held => .held ⟨Option.none⟩
  | .deriv | .integ => .slope ⟨Option.none⟩
  | .fmAvg | .fmMedian => .window ⟨[], Option.none⟩
  | .rising | .falling | .acc | .accInc => .previous ⟨Option.none⟩
  | .hyst => .hysteresis ⟨false⟩
  | .sequence => .cycle ⟨Option.none⟩
  | _ => .none

/-- One step of a function with memory, at an uptime. -/
def step? (now : Nat) : Memory → Func → List Number → Option (Value × Memory)
  | .delay m, .delay, [value, time] => some ((m.step value time now).map id .delay)
  | .sample m, .sample, [value, period] => some ((m.step value period now).map id .sample)
  | .freeze m, .freeze, [value, time] => some ((m.step value time now).map id .freeze)
  | .held m, .held, [value, target, time] => some ((m.step value target time now).map id .held)
  | .slope m, .deriv, [value, sampling] =>
    some ((m.derivative value sampling now).map id .slope)
  | .slope m, .integ, [value, accumulator, sampling] =>
    some ((m.integral value accumulator sampling now).map id .slope)
  | .window m, .fmAvg, [value, width, sampling] =>
    some ((m.average value width sampling now).map id .window)
  | .window m, .fmMedian, [value, width, sampling] =>
    some ((m.median value width sampling now).map id .window)
  | .previous m, .rising, [value] => some ((m.rising value).map id .previous)
  | .previous m, .falling, [value] => some ((m.falling value).map id .previous)
  | .previous m, .acc, [value, accumulator] =>
    some ((m.accumulate value accumulator false).map id .previous)
  | .previous m, .accInc, [value, accumulator] =>
    some ((m.accumulate value accumulator true).map id .previous)
  | .hysteresis m, .hyst, [value, low, high] => some ((m.step value low high).map id .hysteresis)
  | .cycle m, .sequence, arguments => some ((m.step arguments now).map id .cycle)
  | _, _, _ => Option.none

end Memory

end PortLogic
