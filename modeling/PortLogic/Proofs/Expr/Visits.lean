import PortLogic.Number.Power
import PortLogic.Proofs.Expr.Plain
import PortLogic.Proofs.Expr.Reset

/-!
# PortLogic.Proofs.Expr.Visits — what an evaluation visits

An evaluation goes through a tree one node at a time, with one counter for the functions that run.
`trace` is that evaluation with a record of its visits, and without the record it is `eval`
(`trace_eq`). It visits every node once, arguments before their call and from left to right, whether
they are defined or not. A call with an undefined argument is undefined and keeps its memory, unless
its function accepts such arguments; its arguments have been visited all the same, and their own
calls have run (`trace_sweep`).
-/

namespace PortLogic

namespace Expr

/-! ## Nodes -/

/-- The node at the end of a path, which tells the argument to go to at each call. -/
def node? : Expr → List Nat → Option Expr
  | e, [] => some e
  | .call _ _ args, i :: path => args[i]?.bind fun arg => arg.node? path
  | _, _ :: _ => none

/-- A path comes before another when it goes on below it, or leaves it to the left. -/
def Before : List Nat → List Nat → Prop
  | _ :: _, [] => True
  | i :: path, j :: other => i < j ∨ i = j ∧ Before path other
  | [], _ => False

mutual
/-- The nodes of a tree with their paths, arguments before their call and from left to right. -/
def nodes : Expr → List (List Nat × Expr)
  | .literal x => [([], .literal x)]
  | .port id => [([], .port id)]
  | .call func memory args => nodesOfAll 0 args ++ [([], .call func memory args)]
/-- The nodes of arguments, the first of them with a number. -/
def nodesOfAll : Nat → List Expr → List (List Nat × Expr)
  | _, [] => []
  | i, e :: es => (e.nodes.map fun (path, node) => (i :: path, node)) ++ nodesOfAll (i + 1) es
end

/-! ## Visits -/

/-- What an evaluation finds at a node and what it leaves there. -/
structure Visit where
  path : List Nat
  node : Expr
  value : Value
  next : Expr

/-- The visits of an evaluation so far, and how often a function has run. -/
structure Record where
  visits : List Visit
  runs : Nat

/-- Notes a visit. -/
def Record.note (r : Record) (visit : Visit) (runs : Nat) : Record :=
  ⟨r.visits ++ [visit], r.runs + runs⟩

mutual
/-- Evaluates the node at a path and notes what it visits. -/
def trace [Power] (ctx : Context) (path : List Nat) : Expr → Record → Value × Expr × Record
  | .literal x, r => (some x, .literal x, r.note ⟨path, .literal x, some x, .literal x⟩ 0)
  | .port id, r =>
    (ctx.source id, .port id, r.note ⟨path, .port id, ctx.source id, .port id⟩ 0)
  | .call func memory args, r =>
    let (values, nextArgs, r) := traceAll ctx path 0 args r
    let (value, nextMemory, runs) := runCall func memory values ctx.now
    let next := call func nextMemory nextArgs
    (value, next, r.note ⟨path, .call func memory args, value, next⟩ runs)
/-- Evaluates the arguments of the call at a path from left to right, the first with a number. -/
def traceAll [Power] (ctx : Context) (path : List Nat) :
    Nat → List Expr → Record → List Value × List Expr × Record
  | _, [], r => ([], [], r)
  | i, e :: es, r =>
    let (value, next, r) := trace ctx (path ++ [i]) e r
    let (values, nexts, r) := traceAll ctx path (i + 1) es r
    (value :: values, next :: nexts, r)
end

/-- The visit of a node at a path. -/
def visitAt [Power] (ctx : Context) (path : List Nat) (found : List Nat × Expr) : Visit :=
  ⟨path ++ found.1, found.2, (found.2.eval ctx).value, (found.2.eval ctx).next⟩

variable {ctx : Context}

/-- The nodes of an argument are visited below the path of the argument. -/
theorem map_visitAt [Power] (path : List Nat) (i : Nat) (found : List (List Nat × Expr)) :
    (found.map fun (rest, node) => (i :: rest, node)).map (visitAt ctx path) =
      found.map (visitAt ctx (path ++ [i])) := by
  rw [List.map_map]
  refine List.map_congr_left fun _ _ => ?_
  show visitAt ctx path (i :: _, _) = _
  unfold visitAt
  rw [List.append_assoc]
  rfl

mutual
/-- An evaluation with a record is the evaluation, and the record is of the nodes in their order. -/
theorem trace_eq [Power] (ctx : Context) (path : List Nat) (e : Expr) (r : Record) :
    e.trace ctx path r = ((e.eval ctx).value, (e.eval ctx).next,
      ⟨r.visits ++ e.nodes.map (visitAt ctx path), r.runs + (e.eval ctx).runs⟩) := by
  match e with
  | .literal x => simp [trace, eval, nodes, visitAt, Record.note]
  | .port id => simp [trace, eval, nodes, visitAt, Record.note]
  | .call func memory args =>
    rw [trace, traceAll_eq ctx path 0 args r]
    simp only [Record.note, nodes, List.map_append, List.map_singleton, visitAt, List.append_nil,
      eval, List.append_assoc, Nat.add_assoc]

theorem traceAll_eq [Power] (ctx : Context) (path : List Nat) (i : Nat) (es : List Expr)
    (r : Record) : traceAll ctx path i es r = ((evalAll ctx es).values, (evalAll ctx es).next,
      ⟨r.visits ++ (nodesOfAll i es).map (visitAt ctx path), r.runs + (evalAll ctx es).runs⟩) := by
  match es with
  | [] => simp [traceAll, evalAll, nodesOfAll]
  | e :: es =>
    rw [traceAll, trace_eq ctx (path ++ [i]) e r]
    simp only
    rw [traceAll_eq ctx path (i + 1) es, nodesOfAll, List.map_append, map_visitAt]
    simp only [evalAll, List.append_assoc, Nat.add_assoc]
end

/-! ## Every node once, in order -/

mutual
/-- The nodes are what the paths lead to. -/
theorem mem_nodes {e node : Expr} {path : List Nat} :
    (path, node) ∈ e.nodes ↔ e.node? path = some node := by
  match e with
  | .literal x =>
    cases path <;> simp [nodes, node?, eq_comm]
  | .port id =>
    cases path <;> simp [nodes, node?, eq_comm]
  | .call func memory args =>
    rw [nodes, List.mem_append, mem_nodesOfAll]
    cases path with
    | nil => simp [node?, eq_comm]
    | cons j path => simp [node?]

theorem mem_nodesOfAll {es : List Expr} {node : Expr} {i : Nat} {path : List Nat} :
    (path, node) ∈ nodesOfAll i es ↔
      ∃ j rest, path = (i + j) :: rest ∧ es[j]?.bind (fun e => e.node? rest) = some node := by
  match es with
  | [] => simp [nodesOfAll]
  | e :: es =>
    rw [nodesOfAll, List.mem_append, mem_nodesOfAll]
    constructor
    · rintro (hfirst | ⟨j, rest, rfl, hnode⟩)
      · rcases List.mem_map.mp hfirst with ⟨⟨rest, found⟩, hmem, heq⟩
        rcases Prod.mk.inj heq with ⟨rfl, rfl⟩
        exact ⟨0, rest, rfl, mem_nodes.mp hmem⟩
      · refine ⟨j + 1, rest, ?_, hnode⟩
        rw [Nat.add_assoc, Nat.add_comm 1]
    · rintro ⟨j, rest, rfl, hnode⟩
      cases j with
      | zero => exact Or.inl (List.mem_map.mpr ⟨(rest, node), mem_nodes.mpr hnode, rfl⟩)
      | succ j =>
        refine Or.inr ⟨j, rest, ?_, hnode⟩
        rw [Nat.add_assoc, Nat.add_comm 1]
end

mutual
/-- Arguments come before their call and from left to right. -/
theorem nodes_ordered (e : Expr) : e.nodes.Pairwise fun a b => Before a.1 b.1 := by
  match e with
  | .literal x => exact List.pairwise_singleton ..
  | .port id => exact List.pairwise_singleton ..
  | .call func memory args =>
    refine List.pairwise_append.mpr ⟨nodesOfAll_ordered 0 args, List.pairwise_singleton .., ?_⟩
    rintro ⟨path, node⟩ hmem last hlast
    rcases mem_nodesOfAll.mp hmem with ⟨j, rest, rfl, -⟩
    rw [List.mem_singleton.mp hlast]
    trivial

theorem nodesOfAll_ordered (i : Nat) (es : List Expr) :
    (nodesOfAll i es).Pairwise fun a b => Before a.1 b.1 := by
  match es with
  | [] => exact List.Pairwise.nil
  | e :: es =>
    refine List.pairwise_append.mpr ⟨?_, nodesOfAll_ordered (i + 1) es, ?_⟩
    · exact List.pairwise_map.mpr ((nodes_ordered e).imp fun h => Or.inr ⟨rfl, h⟩)
    · intro first hfirst later hlater
      rcases List.mem_map.mp hfirst with ⟨found, -, rfl⟩
      rcases mem_nodesOfAll.mp hlater with ⟨j, rest, heq, -⟩
      rw [heq]
      exact Or.inl (by omega)
end

/-! ## What becomes of a node -/

theorem evalAll_nexts [Power] (ctx : Context) (es : List Expr) :
    (evalAll ctx es).next = es.map fun e => (e.eval ctx).next := by
  induction es with
  | nil => rfl
  | cons e es ih => rw [evalAll, List.map_cons, ih]

/-- Each node of the tree becomes what its own evaluation leaves. -/
theorem node?_next [Power] (ctx : Context) (e : Expr) (path : List Nat) :
    (e.eval ctx).next.node? path = (e.node? path).map fun node => (node.eval ctx).next := by
  induction path generalizing e with
  | nil => rfl
  | cons i path ih =>
    cases e with
    | literal x => rfl
    | port id => rfl
    | call func memory args =>
      rw [eval]
      simp only [node?]
      rw [evalAll_nexts, List.getElem?_map]
      cases args[i]? with
      | none => rfl
      | some arg => exact ih arg

/-! ## Undefined arguments -/

/-- Values are all defined when none of them is undefined. -/
theorem allDefined?_eq_none {values : List Value} :
    allDefined? values = none ↔ none ∈ values := by
  induction values with
  | nil => simp [allDefined?]
  | cons value rest ih =>
    unfold allDefined? at ih ⊢
    rw [List.mapM_cons, List.mem_cons, ← ih]
    cases value with
    | none => simp
    | some x => cases rest.mapM id <;> simp

theorem acceptsUndefined_iff {func : Func} :
    func.acceptsUndefined = true ↔ func = .available ∨ func = .default := by
  cases func <;> decide

/-- A call that does not accept an undefined argument does not run. -/
theorem runCall_of_undefined [Power] {func : Func} {memory : Memory} {values : List Value}
    {now : Now} (hstrict : ¬func.acceptsUndefined = true) (hnone : none ∈ values) :
    runCall func memory values now = (none, memory, 0) := by
  unfold runCall
  rw [if_neg hstrict, allDefined?_eq_none.mpr hnone]

/-- Any other call runs once. -/
theorem runCall_runs [Power] {func : Func} {memory : Memory} {values : List Value} {now : Now}
    (h : func.acceptsUndefined = true ∨ none ∉ values) :
    (runCall func memory values now).2.2 = 1 := by
  unfold runCall
  split
  · rfl
  next hstrict =>
  split
  · next hnone => exact absurd (allDefined?_eq_none.mp hnone) (h.resolve_left hstrict)
  · rfl

/-- Whether an argument is undefined. -/
def anyUndefined [Power] (ctx : Context) (args : List Expr) : Bool :=
  args.any fun arg => (arg.eval ctx).value.isNone

theorem anyUndefined_iff [Power] {args : List Expr} :
    anyUndefined ctx args = true ↔ none ∈ (evalAll ctx args).values := by
  rw [evalAll_values]
  simp [anyUndefined]

/-- Whether a node is a call whose function runs: one that accepts undefined arguments or has
none. -/
def runsIn [Power] (ctx : Context) : Expr → Bool
  | .call func _ args => func == .available || func == .default || !anyUndefined ctx args
  | .literal _ | .port _ => false

theorem runsIn_call [Power] {func : Func} {memory : Memory} {args : List Expr} :
    (call func memory args).runsIn ctx = true ↔
      func.acceptsUndefined = true ∨ none ∉ (evalAll ctx args).values := by
  rw [acceptsUndefined_iff, ← anyUndefined_iff]
  simp [runsIn, or_assoc]

mutual
/-- As many functions run as there are such calls in the tree. -/
theorem eval_runs [Power] (ctx : Context) (e : Expr) :
    (e.eval ctx).runs = e.nodes.countP fun found => found.2.runsIn ctx := by
  match e with
  | .literal x => rfl
  | .port id => rfl
  | .call func memory args =>
    rw [nodes, List.countP_append, ← evalAll_runs ctx 0 args, eval, List.countP_singleton]
    refine congrArg ((evalAll ctx args).runs + ·) ?_
    split
    · next h => exact runCall_runs (runsIn_call.mp h)
    · next h =>
      rw [runsIn_call, not_or, not_not] at h
      rw [runCall_of_undefined h.1 h.2]

theorem evalAll_runs [Power] (ctx : Context) (i : Nat) (es : List Expr) :
    (evalAll ctx es).runs = (nodesOfAll i es).countP fun found => found.2.runsIn ctx := by
  match es with
  | [] => rfl
  | e :: es =>
    rw [nodesOfAll, List.countP_append, List.countP_map, evalAll, eval_runs ctx e,
      evalAll_runs ctx (i + 1) es]
    rfl
end

/-- A call that does not accept its undefined argument is undefined and keeps its memory. -/
theorem eval_of_undefined [Power] {func : Func} {m : Memory} {args : List Expr}
    (hstrict : ¬func.acceptsUndefined = true) (hundefined : anyUndefined ctx args = true) :
    ((call func m args).eval ctx).value = none ∧
      ((call func m args).eval ctx).next = .call func m (evalAll ctx args).next := by
  rw [eval, runCall_of_undefined hstrict (anyUndefined_iff.mp hundefined)]
  exact ⟨rfl, rfl⟩

/-! ## Whole evaluations -/

/-- What an evaluation does with a tree, whose value it yields and which it leaves as another: its
visits, and how many functions it runs. -/
structure Sweep [Power] (ctx : Context) (e : Expr) (value : Value) (next : Expr)
    (visits : List Visit) (runs : Nat) : Prop where
  /-- Arguments are visited before their call and from left to right. -/
  ordered : visits.Pairwise fun a b => Before a.path b.path
  /-- No node is visited twice. -/
  once : (visits.map Visit.path).Nodup
  /-- The visits are of the nodes of the tree. -/
  visited : ∀ path node, e.node? path = some node ↔
    ∃ visit ∈ visits, visit.path = path ∧ visit.node = node
  /-- A visit finds the value that the node has on its own. -/
  found : ∀ visit ∈ visits, visit.value = (visit.node.eval ctx).value
  /-- The tree that is left has, in the place of each node, what the visit made of the node. -/
  left : ∀ visit ∈ visits, next.node? visit.path = some visit.next
  /-- A call with an undefined argument that it does not accept is undefined and keeps its
  memory. -/
  skipped : ∀ visit ∈ visits, ∀ func memory args, visit.node = .call func memory args →
    func ≠ .available → func ≠ .default → anyUndefined ctx args = true →
      visit.value = none ∧ ∃ nexts, visit.next = .call func memory nexts
  /-- Every other call runs once. -/
  counted : runs = visits.countP fun visit => visit.node.runsIn ctx
  /-- The value is the one found at the root, which is visited last. -/
  root : visits.getLast? = some ⟨[], e, value, next⟩
  /-- Nothing changes but memories. -/
  reset : next.reset = e.reset

theorem Before.irrefl : ∀ path, ¬Before path path
  | [] => id
  | i :: path => fun h => h.elim (Nat.lt_irrefl i) fun h => Before.irrefl path h.2

theorem getLast?_nodes (e : Expr) : e.nodes.getLast? = some ([], e) := by
  cases e with
  | literal x => rfl
  | port id => rfl
  | call func memory args =>
    rw [nodes]
    exact List.getLast?_concat ..

/-- One evaluation visits every node once, runs the calls whose arguments let it, and leaves the
rest of the tree alone. -/
theorem trace_sweep [Power] (ctx : Context) (e : Expr) (runs : Nat) :
    ∃ visits count,
      e.trace ctx [] ⟨[], runs⟩ =
        ((e.eval ctx).value, (e.eval ctx).next, ⟨visits, runs + count⟩) ∧
      (e.eval ctx).runs = count ∧
      Sweep ctx e (e.eval ctx).value (e.eval ctx).next visits count := by
  refine ⟨e.nodes.map (visitAt ctx []), (e.eval ctx).runs, trace_eq ctx [] e _, rfl, ?_⟩
  have hordered : (e.nodes.map (visitAt ctx [])).Pairwise fun a b => Before a.path b.path :=
    List.pairwise_map.mpr (nodes_ordered e)
  refine
    { ordered := hordered
      once := ?once
      visited := ?visited
      found := ?found
      left := ?left
      skipped := ?skipped
      counted := ?counted
      root := ?root
      reset := next_reset ctx e }
  case once =>
    refine List.pairwise_map.mpr (hordered.imp fun hbefore heq => ?_)
    rw [heq] at hbefore
    exact Before.irrefl _ hbefore
  case visited =>
    intro path node
    rw [← mem_nodes]
    constructor
    · intro hmem
      exact ⟨_, List.mem_map_of_mem hmem, rfl, rfl⟩
    · rintro ⟨visit, hmem, rfl, rfl⟩
      rcases List.mem_map.mp hmem with ⟨found, hfound, rfl⟩
      exact hfound
  case found =>
    intro visit hmem
    rcases List.mem_map.mp hmem with ⟨found, -, rfl⟩
    rfl
  case left =>
    intro visit hmem
    rcases List.mem_map.mp hmem with ⟨found, hfound, rfl⟩
    show (e.eval ctx).next.node? found.1 = _
    rw [node?_next, mem_nodes.mp hfound]
    rfl
  case skipped =>
    intro visit hmem func memory args hnode havailable hdefault hundefined
    rcases List.mem_map.mp hmem with ⟨found, -, rfl⟩
    have hstrict : ¬func.acceptsUndefined = true := by
      rw [acceptsUndefined_iff]
      rintro (rfl | rfl)
      · exact havailable rfl
      · exact hdefault rfl
    have hskipped := eval_of_undefined (m := memory) hstrict hundefined
    rw [← hnode] at hskipped
    exact ⟨hskipped.1, _, hskipped.2⟩
  case counted =>
    rw [eval_runs, List.countP_map]
    rfl
  case root =>
    rw [List.getLast?_map, getLast?_nodes]
    rfl

attribute [local instance] Power.rounded

/-- The argument after an undefined one is evaluated all the same: its own call runs. -/
example :
    let args := [.port "missing", .call .acc (.previous ⟨some 1⟩) [.literal 2, .literal 0]]
    let outcome := (fresh .add args).eval ⟨fun _ => none, Now.start⟩
    outcome.value = none ∧ outcome.runs = 1 ∧
      outcome.next == fresh .add
        [.port "missing", .call .acc (.previous ⟨some 2⟩) [.literal 2, .literal 0]] := by
  decide +kernel

end Expr

end PortLogic
