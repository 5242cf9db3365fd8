import PortLogic.Memory
import PortLogic.Value

/-!
# PortLogic.Expr — expression trees

An expression is a number, a reference to a port, or a call of a built-in function together with
the memory of that call. This module holds the tree, its queries and its text.
-/

namespace PortLogic

/-- An expression. -/
inductive Expr where
  | literal (x : Number)
  | port (id : String)
  | call (func : Func) (memory : Memory) (args : List Expr)

namespace Expr

instance : Inhabited Expr := ⟨.literal 0⟩

/-- A call with the memory that its function starts with. -/
def fresh (func : Func) (args : List Expr) : Expr :=
  .call func (Memory.initial func) args

/-! ## Queries -/

mutual
/-- The ports that the expression references, parents before arguments, repeats kept. -/
def ports : Expr → List String
  | .literal _ => []
  | .port id => [id]
  | .call _ _ args => portsOfAll args
/-- The ports that any of the expressions references. -/
def portsOfAll : List Expr → List String
  | [] => []
  | e :: es => e.ports ++ portsOfAll es
end

mutual
/-- The functions that the expression calls, parents before arguments, repeats kept. -/
def funcs : Expr → List Func
  | .literal _ => []
  | .port _ => []
  | .call func _ args => func :: funcsOfAll args
/-- The functions that any of the expressions calls. -/
def funcsOfAll : List Expr → List Func
  | [] => []
  | e :: es => e.funcs ++ funcsOfAll es
end

/-- Whether the expression reads the wall-clock second. -/
def readsSecond (e : Expr) : Bool :=
  e.funcs.any Func.readsSecond

/-- Whether the expression depends on the passing milliseconds. -/
def readsMillisecond (e : Expr) : Bool :=
  e.funcs.any Func.readsMillisecond

/-! ## Equality -/

mutual
/-- Equality of trees with their memories, numbers compared by value. -/
def beq : Expr → Expr → Bool
  | .literal x, .literal y => x == y
  | .port id, .port other => id == other
  | .call f m args, .call g n others => f == g && m == n && beqAll args others
  | _, _ => false
/-- Equality of lists of trees. -/
def beqAll : List Expr → List Expr → Bool
  | [], [] => true
  | e :: es, d :: ds => beq e d && beqAll es ds
  | _, _ => false
end

instance : BEq Expr := ⟨beq⟩

/-! ## Text -/

mutual
/-- The canonical text: function names in capitals, one blank after each comma. -/
def text : Expr → String
  | .literal x => x.sourceText
  | .port id => "$" ++ id
  | .call func _ args => func.name ++ "(" ++ textOfAll args ++ ")"
/-- The texts of arguments between commas. -/
def textOfAll : List Expr → String
  | [] => ""
  | [e] => e.text
  | e :: d :: es => e.text ++ ", " ++ textOfAll (d :: es)
end

end Expr

end PortLogic
