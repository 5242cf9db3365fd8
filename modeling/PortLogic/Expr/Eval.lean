import PortLogic.Expr
import PortLogic.Func.Apply

/-!
# PortLogic.Expr.Eval — evaluating expressions

An evaluation reads the values of ports and the time, and yields a value, the tree with the
memories of its calls advanced, and the number of function runs. All arguments of a call are
evaluated, from left to right. A call with an undefined argument is undefined and does not run,
unless its function accepts undefined arguments.
-/

namespace PortLogic

/-- The values that references read, by port. -/
abbrev Source := String → Value

/-- What an evaluation reads. -/
structure Context where
  source : Source
  now : Now

namespace Source

/-- The values for the transform of a port, which sees its own port only. -/
def own (id : String) (x : Number) : Source :=
  fun other => if other = id then some x else none

end Source

namespace Expr

/-- What the evaluation of an expression yields. -/
structure Outcome where
  value : Value
  next : Expr
  runs : Nat

/-- What the evaluation of a list of expressions yields. -/
structure Outcomes where
  values : List Value
  next : List Expr
  runs : Nat

/-- The values of a list when all are defined. -/
def allDefined? (values : List Value) : Option (List Number) :=
  values.mapM id

variable [Power]

/-- Runs a call on the values of its arguments: its value, its memory and its runs. -/
def runCall (func : Func) (memory : Memory) (values : List Value) (now : Now) :
    Value × Memory × Nat :=
  if func.acceptsUndefined then ((func.tolerate? values).getD none, memory, 1)
  else
    match allDefined? values with
    | none => (none, memory, 0)
    | some args =>
      let (value, next) := func.run args memory now
      (value, next, 1)

mutual
/-- Evaluates an expression. -/
def eval (ctx : Context) : Expr → Outcome
  | .literal x => ⟨some x, .literal x, 0⟩
  | .port id => ⟨ctx.source id, .port id, 0⟩
  | .call func memory args =>
    let arguments := evalAll ctx args
    let (value, next, runs) := runCall func memory arguments.values ctx.now
    ⟨value, .call func next arguments.next, arguments.runs + runs⟩
/-- Evaluates expressions from left to right. -/
def evalAll (ctx : Context) : List Expr → Outcomes
  | [] => ⟨[], [], 0⟩
  | e :: es =>
    let first := eval ctx e
    let rest := evalAll ctx es
    ⟨first.value :: rest.values, first.next :: rest.next, first.runs + rest.runs⟩
end

/-- The literals of a list of expressions when all are literals. -/
def literals? : List Expr → Option (List Number)
  | [] => some []
  | .literal x :: es => (literals? es).map (x :: ·)
  | _ => none

/-- Rounds a number the way the outermost call of an expression rounds, when that call rounds and
its further arguments are literals. -/
def roundLike (e : Expr) (x : Number) : Value :=
  match e with
  | .call func _ args =>
    if func.isRounding then
      (literals? (args.drop 1)).bind fun rest => (func.run (x :: rest) .none Now.start).1
    else none
  | _ => none

end Expr

end PortLogic
