import PortLogic.Number.Basic

/-!
# PortLogic.Time — the clock of a tick

Times are whole milliseconds: one monotonic count since start-up, and the wall clock once it is set.
-/

namespace PortLogic

/-- The time of a tick. -/
structure Now where
  /-- Milliseconds since start-up. -/
  uptime : Nat
  /-- Milliseconds of the wall clock, when it is set. -/
  wall : Option Nat
deriving DecidableEq, Inhabited

namespace Now

/-- Start-up, with no wall clock. -/
def start : Now := ⟨0, none⟩

/-- The second of the wall clock. -/
def second (now : Now) : Option Nat :=
  now.wall.map (· / 1000)

end Now

/-- The milliseconds from one time to another as a number; none pass backward. -/
def elapsed (since now : Nat) : Number :=
  Number.ofNat (now - since)

end PortLogic
