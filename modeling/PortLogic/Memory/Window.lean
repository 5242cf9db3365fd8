import PortLogic.Memory.Timed

/-!
# PortLogic.Memory.Window — moving averages and medians

A window keeps the last accepted values, at most as many as its current width.
-/

namespace PortLogic

/-- The mean of a list, summed from left to right. -/
def Number.mean (xs : List Number) : Number :=
  Number.sum xs / Number.ofNat xs.length

/-- The element in the middle of a list in ascending order, the upper one of an even count. -/
def Number.median? (xs : List Number) : Value :=
  (xs.mergeSort Number.totalLe)[xs.length / 2]?

namespace Memory

/-- The accepted values, oldest first, and when the last one was accepted. -/
structure Window where
  history : List Number
  sampledAt : Option Nat
deriving DecidableEq

namespace Window

/-- The whole part of a width, held between one and the history limit. -/
def widthOf (width : Number) : Nat :=
  (width.max 1).toNatWithin historyLimit

/-- Accepts a value when the sampling interval has passed, then drops the oldest values down to the
width. -/
def accept (m : Window) (value width sampling : Number) (now : Nat) : Window :=
  let due := match m.sampledAt with
    | none => true
    | some since => decide (sampling ≤ elapsed since now)
  let next : Window := if due then ⟨m.history ++ [value], some now⟩ else m
  { next with history := next.history.drop (next.history.length - widthOf width) }

/-- The mean of the window. -/
def average (m : Window) (value width sampling : Number) (now : Nat) : Value × Window :=
  let next := m.accept value width sampling now
  (if next.history = [] then none else some (Number.mean next.history), next)

/-- The median of the window. -/
def median (m : Window) (value width sampling : Number) (now : Nat) : Value × Window :=
  let next := m.accept value width sampling now
  (Number.median? next.history, next)

end Window

end Memory

end PortLogic
