import Mathlib.Data.List.Basic
import PortLogic.Func.Apply

/-!
# PortLogic.Proofs.Func.Dispatch — every call that is admitted finds its row

Four tables say how a function is run: how many arguments it takes, which memory it starts with, and
what it does with its arguments, without a memory (`compute?`, `tolerate?`) or with one (`step?`).
The tables agree. For every number of arguments that the first one admits, a function that starts
without a memory has a row in one of the tables without (`exists_tolerate?`, `exists_compute?`), and
a function that starts with one has a row in the other table and in no other, for every memory of
that kind (`exists_step?`). A step keeps the kind of the memory.
-/

namespace PortLogic

namespace Memory

/-- Memories of one kind, whatever is in them. -/
inductive SameKind : Memory → Memory → Prop where
  | none : SameKind .none .none
  | delay {m n : Delay} : SameKind (.delay m) (.delay n)
  | sample {m n : Sample} : SameKind (.sample m) (.sample n)
  | freeze {m n : Freeze} : SameKind (.freeze m) (.freeze n)
  | held {m n : Held} : SameKind (.held m) (.held n)
  | slope {m n : Slope} : SameKind (.slope m) (.slope n)
  | window {m n : Window} : SameKind (.window m) (.window n)
  | previous {m n : Previous} : SameKind (.previous m) (.previous n)
  | hysteresis {m n : Hysteresis} : SameKind (.hysteresis m) (.hysteresis n)
  | cycle {m n : Cycle} : SameKind (.cycle m) (.cycle n)

variable {k m n : Memory}

theorem SameKind.refl (m : Memory) : SameKind m m := by
  cases m <;> constructor

theorem SameKind.trans (hkm : SameKind k m) (hmn : SameKind m n) : SameKind k n := by
  cases hkm <;> cases hmn <;> constructor

/-- A step keeps the kind of the memory. -/
theorem step?_sameKind {now : Nat} {f : Func} {args : List Number} {value : Value}
    (h : m.step? now f args = some (value, n)) : SameKind m n := by
  unfold step? at h
  split at h <;> cases h <;> constructor

end Memory

namespace Func

variable {f : Func} {args : List Number} {memory : Memory} {now : Now}

/-- A function that accepts undefined arguments has a row for them. -/
theorem exists_tolerate? {values : List Value} (hlenient : f.acceptsUndefined = true)
    (harity : f.arity.accepts values.length = true) :
    ∃ value, f.tolerate? values = some value := by
  cases f with
  | available =>
    rcases List.length_eq_one_iff.mp (of_decide_eq_true harity) with ⟨x, rfl⟩
    exact ⟨_, rfl⟩
  | default =>
    rcases List.length_eq_two.mp (of_decide_eq_true harity) with ⟨x, y, rfl⟩
    exact ⟨_, rfl⟩
  | _ => cases hlenient

variable [Power]

/-- Any other function without a memory has a row for as many arguments as it takes. -/
theorem exists_compute? (hstrict : f.acceptsUndefined = false)
    (hstateless : Memory.initial f = .none) (harity : f.arity.accepts args.length = true) :
    ∃ value, f.compute? args now = some value := by
  cases f with
  | add | mul | and | or | avg => exact ⟨_, rfl⟩
  | time | timeMs =>
    rw [List.length_eq_zero_iff.mp (of_decide_eq_true harity)]
    exact ⟨_, rfl⟩
  | not | bitNot | abs | sgn | floor | ceil =>
    rcases List.length_eq_one_iff.mp (of_decide_eq_true harity) with ⟨x, rfl⟩
    exact ⟨_, rfl⟩
  | sub | div | mod | pow | xor | bitAnd | bitOr | bitXor | shl | shr | eq | gt | gte | lt | lte =>
    rcases List.length_eq_two.mp (of_decide_eq_true harity) with ⟨x, y, rfl⟩
    exact ⟨_, rfl⟩
  | select =>
    rcases List.length_eq_three.mp (of_decide_eq_true harity) with ⟨x, y, z, rfl⟩
    exact ⟨_, rfl⟩
  | min | max | lut | lutLi =>
    cases args with
    | nil => cases harity
    | cons x rest => exact ⟨_, rfl⟩
  | round =>
    have hcount : 1 ≤ args.length ∧ args.length ≤ 2 := of_decide_eq_true harity
    rcases args with _ | ⟨x, _ | ⟨y, _ | ⟨z, rest⟩⟩⟩
    · exact absurd hcount.1 (by decide)
    · exact ⟨_, rfl⟩
    · exact ⟨_, rfl⟩
    · simp at hcount
  | available | default => cases hstrict
  | _ => cases hstateless

/-- A function with a memory has no row among the functions without, for any arguments. -/
theorem compute?_of_stateful (hstateful : Memory.initial f ≠ .none) :
    f.compute? args now = none := by
  cases f with
  | delay | sample | freeze | held | deriv | integ | fmAvg | fmMedian | rising | falling | acc
  | accInc | hyst | sequence => rfl
  | _ => exact absurd rfl hstateful

omit [Power] in
/-- A function with a memory has a row for as many arguments as it takes and every memory of its
kind. -/
theorem exists_step? {uptime : Nat} (hstateful : Memory.initial f ≠ .none)
    (hmemory : (Memory.initial f).SameKind memory)
    (harity : f.arity.accepts args.length = true) :
    ∃ value next, memory.step? uptime f args = some (value, next) := by
  cases f with
  | rising | falling =>
    rcases List.length_eq_one_iff.mp (of_decide_eq_true harity) with ⟨x, rfl⟩
    cases hmemory
    exact ⟨_, _, rfl⟩
  | delay | sample | freeze | deriv | acc | accInc =>
    rcases List.length_eq_two.mp (of_decide_eq_true harity) with ⟨x, y, rfl⟩
    cases hmemory
    exact ⟨_, _, rfl⟩
  | held | integ | fmAvg | fmMedian | hyst =>
    rcases List.length_eq_three.mp (of_decide_eq_true harity) with ⟨x, y, z, rfl⟩
    cases hmemory
    exact ⟨_, _, rfl⟩
  | sequence =>
    cases hmemory
    exact ⟨_, _, rfl⟩
  | _ => exact absurd rfl hstateful

end Func

end PortLogic
