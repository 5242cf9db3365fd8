import PortLogic.Proofs.Func.Dispatch

/-!
# PortLogic.Proofs.Memory.Trace — one call, evaluated over and over

A call owns its memory, so what its evaluations come to depends on their arguments and their times
alone. Evaluations are numbered from zero. On a `Timeline` their times do not go back, and they stay
in the range where numbers hold every millisecond; `beforeAt` and `yieldsAt` admit any.

`yields` is the result of the step that the function makes of its memory. An evaluation runs the
function (`runs`), which lets only a finite result through: it gives what `yields` says where that
is finite, and is undefined elsewhere (`runs_eq`).
-/

namespace PortLogic

-- powers of naturals are the built-in ones, whatever algebra is in scope
attribute [local instance (2000)] instPowNat

/-- The times of evaluations. -/
structure Timeline where
  time : Nat → Nat
  ordered : ∀ {i j}, i ≤ j → time i ≤ time j
  bounded : ∀ k, time k < 2 ^ (53 : Nat)

/-- The times of evaluations, with what the wall clock shows at them. -/
def Timeline.now (t : Timeline) (wall : Nat → Option Nat) (k : Nat) : Now :=
  ⟨t.time k, wall k⟩

namespace Memory

variable (f : Func) (args : Nat → List Number) (t : Timeline)

/-- The memory of a call before one of its evaluations. -/
def before : Nat → Memory
  | 0 => initial f
  | k + 1 => (((before k).step? (t.time k) f (args k)).map Prod.snd).getD (before k)

/-- The result of the step that an evaluation of a call makes, before it is checked to be finite. -/
def yields (k : Nat) : Value :=
  ((before f args t k).step? (t.time k) f (args k)).bind Prod.fst

/-! ## Any times -/

variable (time : Nat → Nat)

/-- The memory of a call before one of its evaluations, which may be at any times. -/
def beforeAt : Nat → Memory
  | 0 => initial f
  | k + 1 => (((beforeAt k).step? (time k) f (args k)).map Prod.snd).getD (beforeAt k)

/-- The result of the step that an evaluation of a call makes, at any times, before it is checked to
be finite. -/
def yieldsAt (k : Nat) : Value :=
  ((beforeAt f args time k).step? (time k) f (args k)).bind Prod.fst

theorem before_eq (k : Nat) : before f args t k = beforeAt f args t.time k := by
  induction k with
  | zero => rfl
  | succ k ih => rw [before, beforeAt, ih]

theorem yields_eq (k : Nat) : yields f args t k = yieldsAt f args t.time k := by
  rw [yields, yieldsAt, before_eq]

variable {f args t time}

/-- An evaluation that the memory admits. -/
theorem evaluationAt {k : Nat} {value : Value} {next : Memory}
    (h : (beforeAt f args time k).step? (time k) f (args k) = some (value, next)) :
    yieldsAt f args time k = value ∧ beforeAt f args time (k + 1) = next := by
  constructor
  · unfold yieldsAt
    rw [h]
    rfl
  · unfold beforeAt
    rw [h]
    rfl

theorem evaluation {k : Nat} {value : Value} {next : Memory}
    (h : (before f args t k).step? (t.time k) f (args k) = some (value, next)) :
    yields f args t k = value ∧ before f args t (k + 1) = next := by
  rw [yields_eq, before_eq]
  rw [before_eq] at h
  exact evaluationAt h

/-- An evaluation by a step on what the function keeps in the memory. -/
theorem evaluation_step {α : Type} {own : α → Memory} {result : Value × α} {m : Memory} {k : Nat}
    (hm : before f args t k = m)
    (h : m.step? (t.time k) f (args k) = some (result.map id own)) :
    yields f args t k = result.1 ∧ before f args t (k + 1) = own result.2 :=
  evaluation (by rw [hm, h]; rfl)

/-! ## Runs of the function -/

section

variable [Power]

/-- A call whose function is run over and over: the value of an evaluation, and the memory after
it. -/
def runs (f : Func) (args : Nat → List Number) (now : Nat → Now) : Nat → Value × Memory
  | 0 => f.run (args 0) (initial f) (now 0)
  | k + 1 => f.run (args (k + 1)) (runs f args now k).2 (now (k + 1))

/-- A function with a memory is run as a step of it, of which only a finite result is a value. -/
theorem run_of_stateful (hstateful : initial f ≠ .none) (args : List Number) (memory : Memory)
    (now : Now) :
    f.run args memory now =
      (((memory.step? now.uptime f args).bind Prod.fst).bind Number.finite?,
        ((memory.step? now.uptime f args).map Prod.snd).getD memory) := by
  unfold Func.run Func.run?
  rw [Func.compute?_of_stateful hstateful]
  simp only
  cases memory.step? now.uptime f args with
  | none => rfl
  | some found => rfl

/-- An evaluation gives the result of its step where that is finite. -/
theorem runs_eq (hstateful : initial f ≠ .none) (args : Nat → List Number) (now : Nat → Now)
    (k : Nat) :
    runs f args now k =
      ((yieldsAt f args (fun k => (now k).uptime) k).bind Number.finite?,
        beforeAt f args (fun k => (now k).uptime) (k + 1)) := by
  induction k with
  | zero => exact run_of_stateful hstateful _ _ _
  | succ k ih =>
    rw [runs, ih]
    exact run_of_stateful hstateful _ _ _

theorem runs_timeline (hstateful : initial f ≠ .none) (args : Nat → List Number) (t : Timeline)
    (wall : Nat → Option Nat) (k : Nat) :
    runs f args (t.now wall) k =
      ((yields f args t k).bind Number.finite?, before f args t (k + 1)) := by
  rw [runs_eq hstateful, yields_eq, before_eq]
  rfl

end

end Memory

end PortLogic
