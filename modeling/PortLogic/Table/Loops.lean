import PortLogic.Table

/-!
# PortLogic.Table.Loops — expressions that lead back to their port

Follows the references of an expression from port to port, depth first, into each port once. The
search ends because every step uses up a pending reference, and a port that it goes into is used up
together with the references that it adds.
-/

namespace PortLogic

namespace Table

variable {δ : Type}

/-- Follows pending references, each with its depth, until one deeper than the first level leads to
the owner: its depth, or zero when none does. -/
def follow (owner : String) (references : String → List String) :
    List String → List (Nat × String) → Nat
  | _, [] => 0
  | unvisited, (depth, id) :: pending =>
    if id = owner then
      if 1 < depth then depth else follow owner references unvisited pending
    else if id ∈ unvisited then
      follow owner references (unvisited.erase id)
        ((references id).map (depth + 1, ·) ++ pending)
    else
      follow owner references unvisited pending
termination_by unvisited pending =>
  (unvisited.flatMap fun id => id :: references id).length + pending.length
decreasing_by
  · exact Nat.lt_succ_self _
  · next h =>
    have hlength := ((List.perm_cons_erase h).flatMap_right fun id => id :: references id).length_eq
    rw [List.flatMap_cons, List.length_append, List.length_cons] at hlength
    rw [List.length_append, List.length_map, List.length_cons]
    omega
  · exact Nat.lt_succ_self _

/-- The references of the port with an identifier. -/
def referencesOf (t : Table δ) (id : String) : List String :=
  ((t.find? id).map Port.references).getD []

/-- How many ports a loop through an expression of the owner passes; zero when there is no loop.
That an expression reads its own port is no loop. -/
def loopDepth (t : Table δ) (owner : String) (e : Expr) : Nat :=
  follow owner t.referencesOf (t.ports.map Port.id) (e.ports.map (1, ·))

end Table

end PortLogic
