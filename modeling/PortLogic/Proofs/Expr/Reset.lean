import PortLogic.Expr.Eval
import PortLogic.Proofs.Triggers

/-!
# PortLogic.Proofs.Expr.Reset — what an evaluation leaves alone

An evaluation advances the memories in a tree and nothing else. `reset` puts every memory back to
the one that its call starts with, and a tree keeps its reset while it is evaluated (`next_reset`).
What a tree references, calls and is triggered by depends on its reset only, and so does its text.
-/

namespace PortLogic

namespace Expr

mutual
/-- The tree with every memory as it was at first. -/
def reset : Expr → Expr
  | .literal x => .literal x
  | .port id => .port id
  | .call func _ args => fresh func (resetAll args)
/-- The trees with every memory as it was at first. -/
def resetAll : List Expr → List Expr
  | [] => []
  | e :: es => e.reset :: resetAll es
end

@[simp]
theorem reset_fresh (func : Func) (args : List Expr) :
    (fresh func args).reset = fresh func (resetAll args) := by
  rw [fresh, reset]

/-! ## Queries -/

mutual
@[simp]
theorem ports_reset (e : Expr) : e.reset.ports = e.ports := by
  match e with
  | .literal _ => rfl
  | .port _ => rfl
  | .call _ _ args =>
    rw [reset, fresh, ports, ports]
    exact portsOfAll_resetAll args

@[simp]
theorem portsOfAll_resetAll (es : List Expr) : portsOfAll (resetAll es) = portsOfAll es := by
  match es with
  | [] => rfl
  | e :: es =>
    rw [resetAll, portsOfAll, portsOfAll]
    rw [ports_reset e, portsOfAll_resetAll es]
end

mutual
@[simp]
theorem funcs_reset (e : Expr) : e.reset.funcs = e.funcs := by
  match e with
  | .literal _ => rfl
  | .port _ => rfl
  | .call _ _ args =>
    rw [reset, fresh, funcs, funcs]
    rw [funcsOfAll_resetAll args]

@[simp]
theorem funcsOfAll_resetAll (es : List Expr) : funcsOfAll (resetAll es) = funcsOfAll es := by
  match es with
  | [] => rfl
  | e :: es =>
    rw [resetAll, funcsOfAll, funcsOfAll]
    rw [funcs_reset e, funcsOfAll_resetAll es]
end

@[simp]
theorem triggers_reset (slotOf : String → Option Nat) (e : Expr) :
    e.reset.triggers slotOf = e.triggers slotOf := by
  unfold triggers portTriggers readsSecond readsMillisecond
  rw [ports_reset, funcs_reset]

mutual
@[simp]
theorem text_reset (e : Expr) : e.reset.text = e.text := by
  match e with
  | .literal _ => rfl
  | .port _ => rfl
  | .call _ _ args =>
    rw [reset, fresh, text, text, textOfAll_resetAll args]

@[simp]
theorem textOfAll_resetAll (es : List Expr) : textOfAll (resetAll es) = textOfAll es := by
  match es with
  | [] => rfl
  | [e] => exact text_reset e
  | e :: d :: es =>
    have hrest : textOfAll (d.reset :: resetAll es) = textOfAll (d :: es) :=
      textOfAll_resetAll (d :: es)
    rw [resetAll, resetAll, textOfAll, textOfAll, text_reset e, hrest]
end

/-! ## Evaluation -/

variable [Power]

mutual
/-- An evaluation changes memories only. -/
@[simp]
theorem next_reset (ctx : Context) (e : Expr) : (e.eval ctx).next.reset = e.reset := by
  match e with
  | .literal _ => rfl
  | .port _ => rfl
  | .call func memory args =>
    rw [eval, reset, reset]
    rw [nextAll_reset ctx args]

@[simp]
theorem nextAll_reset (ctx : Context) (es : List Expr) :
    resetAll (evalAll ctx es).next = resetAll es := by
  match es with
  | [] => rfl
  | e :: es =>
    rw [evalAll, resetAll, resetAll]
    rw [next_reset ctx e, nextAll_reset ctx es]
end

/-- What evaluations make of an optional tree: its memories may have advanced. -/
def Advances (before after : Option Expr) : Prop :=
  after.map reset = before.map reset

omit [Power] in
theorem Advances.refl (tree : Option Expr) : Advances tree tree := rfl

theorem advances_eval (ctx : Context) (e : Expr) : Advances (some e) (some (e.eval ctx).next) :=
  congrArg some (next_reset ctx e)

end Expr

end PortLogic
