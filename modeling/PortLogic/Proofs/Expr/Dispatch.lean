import PortLogic.Proofs.Expr.Count
import PortLogic.Proofs.Expr.Parse
import PortLogic.Proofs.Func.Dispatch
import PortLogic.Proofs.Number.Power

/-!
# PortLogic.Proofs.Expr.Dispatch — calls are run by the row of their function

A tree that was read is `Fitted`: each call has as many arguments as its function takes, and a
memory of the kind that its function starts with. An evaluation keeps a tree fitted, and so do any
number of them. In a fitted tree each call that an evaluation visits is `Served`: it is skipped for
an undefined argument, or its function has a row for its arguments and its memory, whose value it
yields. So a call is never undefined for its memory. For the number of its arguments it is where a
look-up or a sequence is left with one that has no partner; with any other number it can have a
value (`served_of_parse`).
-/

namespace PortLogic

namespace Expr

section

/-! ## Fitted trees -/

/-- A tree of which each call has a number of arguments and a memory that suit its function. -/
inductive Fitted : Expr → Prop where
  | literal {x : Number} : Fitted (.literal x)
  | port {id : String} : Fitted (.port id)
  | call {func : Func} {memory : Memory} {args : List Expr}
      (harity : func.arity.accepts args.length = true)
      (hmemory : (Memory.initial func).SameKind memory) (hargs : ∀ e ∈ args, Fitted e) :
      Fitted (.call func memory args)

variable [Power]

/-- How a call with a memory is run on the values of its arguments: the value that it yields and the
memory that it leaves. -/
inductive Served (now : Now) (func : Func) (memory : Memory) (values : List Value) :
    Value → Memory → Prop where
  /-- An undefined argument keeps the function from running. -/
  | skipped (hstrict : func.acceptsUndefined = false) (hundefined : none ∈ values) :
    Served now func memory values none memory
  /-- The function has a row for undefined arguments too. -/
  | tolerated {value : Value} (hlenient : func.acceptsUndefined = true)
      (hrow : func.tolerate? values = some value) : Served now func memory values value memory
  /-- The function has a row without a memory. -/
  | computed {args : List Number} {value : Value} (hstateless : Memory.initial func = .none)
      (hdefined : values = args.map some) (hrow : func.compute? args now = some value) :
    Served now func memory values (value.bind Number.finite?) memory
  /-- The function has a row with a memory, and none without. -/
  | stepped {args : List Number} {value : Value} {next : Memory}
      (hstateful : Memory.initial func ≠ .none) (hdefined : values = args.map some)
      (hother : func.compute? args now = none)
      (hrow : memory.step? now.uptime func args = some (value, next))
      (hkind : memory.SameKind next) :
    Served now func memory values (value.bind Number.finite?) next

variable {func : Func} {memory : Memory} {values : List Value} {now : Now} {e : Expr}

/-- A call with as many arguments as its function takes and a memory of its kind is served. -/
theorem served_runCall (harity : func.arity.accepts values.length = true)
    (hmemory : (Memory.initial func).SameKind memory) :
    Served now func memory values (runCall func memory values now).1
      (runCall func memory values now).2.1 := by
  unfold runCall
  cases hlenient : func.acceptsUndefined with
  | true =>
    rcases Func.exists_tolerate? hlenient harity with ⟨value, hrow⟩
    rw [if_pos rfl, hrow]
    exact .tolerated hlenient hrow
  | false =>
    rw [if_neg Bool.false_ne_true]
    cases hdefined : allDefined? values with
    | none => exact .skipped hlenient (allDefined?_eq_none.mp hdefined)
    | some args =>
      rw [allDefined?_eq_some] at hdefined
      have hcount : func.arity.accepts args.length = true := by
        rwa [hdefined, List.length_map] at harity
      simp only [Func.run, Func.run?]
      by_cases hstateless : Memory.initial func = .none
      · have hexists : ∃ value, func.compute? args now = some value :=
          Func.exists_compute? hlenient hstateless hcount
        rcases hexists with ⟨value, hrow⟩
        rw [hrow]
        exact .computed hstateless hdefined hrow
      · have hother : func.compute? args now = none := Func.compute?_of_stateful hstateless
        have hexists : ∃ value next, memory.step? now.uptime func args = some (value, next) :=
          Func.exists_step? hstateless hmemory hcount
        rcases hexists with ⟨value, next, hrow⟩
        rw [hother]
        simp only
        rw [hrow]
        exact .stepped hstateless hdefined hother hrow (Memory.step?_sameKind hrow)

theorem Served.sameKind {value : Value} {next : Memory}
    (h : Served now func memory values value next) : memory.SameKind next := by
  cases h with
  | skipped | tolerated | computed => exact Memory.SameKind.refl memory
  | stepped _ _ _ _ hkind => exact hkind

/-! ## Evaluations -/

omit [Power] in
theorem read_fitted {owner : String} {room : Nat} {s : Span} (h : read owner room s = .ok e) :
    Fitted e := by
  refine read_induction (motive := fun _ e => Fitted e) ?_ ?_ ?_ h
  · intro room x _
    exact .literal
  · intro room id _
    exact .port
  · intro room func args harity hargs
    exact .call harity (Memory.SameKind.refl _) hargs

/-- The values of the arguments of a call. -/
def argumentValues (ctx : Context) (args : List Expr) : List Value :=
  args.map fun arg => (arg.eval ctx).value

/-- A call of a fitted tree is served, and keeps its function. -/
theorem Fitted.served {args : List Expr} (h : Fitted (.call func memory args)) (ctx : Context) :
    ∃ next, ((Expr.call func memory args).eval ctx).next = .call func next (evalAll ctx args).next ∧
      Served ctx.now func memory (argumentValues ctx args)
        ((Expr.call func memory args).eval ctx).value next := by
  cases h with
  | call harity hmemory hargs =>
    have hcount : func.arity.accepts (argumentValues ctx args).length = true := by
      rwa [argumentValues, List.length_map]
    rw [eval, evalAll_values]
    exact ⟨_, rfl, served_runCall hcount hmemory⟩

/-- An evaluation keeps a tree fitted. -/
theorem Fitted.next (h : Fitted e) (ctx : Context) : Fitted (e.eval ctx).next := by
  induction h with
  | literal => exact .literal
  | port => exact .port
  | @call func memory args harity hmemory hargs ih =>
    rcases (Fitted.call harity hmemory hargs).served ctx with ⟨next, hnext, hserved⟩
    rw [hnext, evalAll_nexts]
    refine .call ?_ (hmemory.trans hserved.sameKind) ?_
    · rwa [List.length_map]
    · rw [List.forall_mem_map]
      exact ih

/-- The tree that evaluations leave, one after the other. -/
def after (e : Expr) (contexts : List Context) : Expr :=
  contexts.foldl (fun e ctx => (e.eval ctx).next) e

theorem Fitted.after (h : Fitted e) (contexts : List Context) : Fitted (e.after contexts) := by
  induction contexts generalizing e with
  | nil => exact h
  | cons ctx rest ih => exact ih (h.next ctx)

/-- A call of which an argument is left without its partner. -/
def isUnpaired : Expr → Bool
  | .call func _ args => func.leavesUnpaired args.length
  | _ => false

/-- A call with an argument that has no partner is undefined in every evaluation. -/
theorem value_of_unpaired (h : e.isUnpaired = true) (ctx : Context) :
    (e.eval ctx).value = none := by
  cases e with
  | call func memory args =>
    have hcount : func.leavesUnpaired (argumentValues ctx args).length = true := by
      rwa [argumentValues, List.length_map]
    rw [eval, evalAll_values]
    exact runCall_of_unpaired hcount
  | literal | port => cases h

omit [Power] in
/-- Every node of a fitted tree is fitted. -/
theorem Fitted.node (h : Fitted e) {path : List Nat} {node : Expr}
    (hnode : e.node? path = some node) : Fitted node := by
  induction path generalizing e with
  | nil =>
    rw [← Option.some.inj hnode]
    exact h
  | cons i path ih =>
    cases h with
    | literal => cases hnode
    | port => cases hnode
    | call harity hmemory hargs =>
      rcases Option.bind_eq_some_iff.mp hnode with ⟨arg, harg, hnode⟩
      exact ih (hargs arg (List.mem_of_getElem? harg)) hnode

/-- In a tree that was read, after any number of evaluations, every call has a memory of the kind
that its function starts with, and every call that a further evaluation visits is served. It is
undefined if its number of arguments leaves one without its partner. With every other number that
was read a call of its function can have a value, if powers are as they are promised. -/
theorem served_of_parse {owner source : String} (h : parse owner source = .ok e)
    (contexts : List Context) :
    (∀ path func memory args, (e.after contexts).node? path = some (.call func memory args) →
      (Memory.initial func).SameKind memory) ∧
    ∀ ctx, ∀ visit ∈ ((e.after contexts).trace ctx [] ⟨[], 0⟩).2.2.visits,
      ∀ func memory args, visit.node = .call func memory args →
        (∃ next nexts, visit.next = .call func next nexts ∧
          Served ctx.now func memory (argumentValues ctx args) visit.value next) ∧
        (func.leavesUnpaired args.length = true → visit.value = none) ∧
        (LawfulPower → func.leavesUnpaired args.length = false → HasValue func args.length) := by
  -- the evaluations so far have kept the tree fitted, which is all that the next one needs
  have hfitted : Fitted (e.after contexts) := (read_fitted h).after contexts
  generalize e.after contexts = later at hfitted
  constructor
  · intro path func memory args hnode
    cases hfitted.node hnode with
    | call harity hmemory hargs => exact hmemory
  · intro ctx visit hvisit func memory args hcall
    rw [trace_eq, List.nil_append, List.mem_map] at hvisit
    rcases hvisit with ⟨⟨path, node⟩, hmem, rfl⟩
    change node = _ at hcall
    subst hcall
    have hnode := hfitted.node (mem_nodes.mp hmem)
    refine ⟨?_, fun hunpaired => ?_, fun _ hpaired => ?_⟩
    · rcases hnode.served ctx with ⟨next, hnext, hserved⟩
      exact ⟨next, (evalAll ctx args).next, hnext, hserved⟩
    · exact value_of_unpaired (e := .call func memory args) hunpaired ctx
    · cases hnode with
      | call harity hmemory hargs => exact hasValue harity hpaired

end

attribute [local instance] Power.rounded

/-- A sum of calls with and without a memory, of one that accepts undefined arguments, and of a
look-up with one number too many. -/
def countingSource : String :=
  "ADD(ACC($, 0), ROUND(2.5), IF(AVAILABLE($), 1, 2), LUT(0, 0, 10, 10, 20, 5))"

theorem served_of_counting_source :
    ∃ e, parse "p" countingSource = .ok e ∧
      ∀ contexts : List Context,
        (∀ path func memory args, (e.after contexts).node? path = some (.call func memory args) →
          (Memory.initial func).SameKind memory) ∧
        ∀ ctx, ∀ visit ∈ ((e.after contexts).trace ctx [] ⟨[], 0⟩).2.2.visits,
          ∀ func memory args, visit.node = .call func memory args →
            (∃ next nexts, visit.next = .call func next nexts ∧
              Served ctx.now func memory (argumentValues ctx args) visit.value next) ∧
            (func.leavesUnpaired args.length = true → visit.value = none) ∧
            (func.leavesUnpaired args.length = false → HasValue func args.length) := by
  have hread : (parse "p" countingSource).isOk = true := by
    decide +kernel
  cases hparse : parse "p" countingSource with
  | error err =>
    rw [hparse] at hread
    cases hread
  | ok e =>
    refine ⟨e, rfl, fun contexts => ?_⟩
    rcases served_of_parse hparse contexts with ⟨hkinds, hvisits⟩
    refine ⟨hkinds, fun ctx visit hvisit func memory args hcall => ?_⟩
    rcases hvisits ctx visit hvisit func memory args hcall with ⟨hserved, hunpaired, hpaired⟩
    exact ⟨hserved, hunpaired, hpaired inferInstance⟩

/-- A table with one number too many is read, and is undefined for the number of its arguments: so
is every call with as many, whatever the arguments are. -/
theorem odd_table_is_undefined :
    Func.lut.arity.accepts 6 = true ∧ ¬HasValue .lut 6 ∧
      ∃ e, parse "p" "LUT(0, 0, 10, 10, 20, 5)" = .ok e ∧
        ∀ ctx : Context, (e.eval ctx).value = none := by
  have hread : (parse "p" "LUT(0, 0, 10, 10, 20, 5)").toOption.any isUnpaired = true := by
    decide +kernel
  refine ⟨rfl, ?_, ?_⟩
  · rintro ⟨first, second, earlier, later, -, hsecond, hvalue⟩
    have hunpaired : Func.lut.leavesUnpaired second.length = true := by
      rw [hsecond]
      rfl
    rw [runCall_of_unpaired hunpaired] at hvalue
    cases hvalue
  · cases hparse : parse "p" "LUT(0, 0, 10, 10, 20, 5)" with
    | error err =>
      rw [hparse] at hread
      cases hread
    | ok e =>
      rw [hparse] at hread
      exact ⟨e, rfl, value_of_unpaired hread⟩

end Expr

end PortLogic
