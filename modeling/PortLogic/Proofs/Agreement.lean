import PortLogic.Device.Simulated
import PortLogic.Number.Power
import PortLogic.Proofs.Func.Alike
import PortLogic.Proofs.Reachable

/-!
# PortLogic.Proofs.Agreement — an evaluation sees nothing but its triggers

Two evaluations of one tree agree when its references read the same and the two clocks show the same
as far as the functions of the tree look at them (`Expr.eval_agree`). In a reachable engine what
triggers a port covers all of that. So two evaluations that agree on the triggers have the same
outcome, which is the value, the advanced memories and the number of runs
(`Reachable.eval_agree_on_triggers`).
-/

namespace PortLogic

/-! ## Expressions -/

namespace Expr

variable [Power] {c d : Context} {func : Func} {now now' : Now}

/-- A call sees no more of the time than its function reads. -/
theorem runCall_congr_now (hsecond : func.readsSecond = true → now.second = now'.second)
    (hmillisecond : func.readsMillisecond = true → now = now') (memory : Memory)
    (values : List Value) :
    runCall func memory values now = runCall func memory values now' := by
  unfold runCall
  split
  · rfl
  · cases allDefined? values with
    | none => rfl
    | some args =>
      simp only
      rw [Func.run_congr_now hsecond hmillisecond]

/-- What two evaluations of trees with given references and functions have to agree on. -/
structure Agree (ports : List String) (funcs : List Func) (c d : Context) : Prop where
  source : ∀ id ∈ ports, c.source id = d.source id
  second : ∀ f ∈ funcs, f.readsSecond = true → c.now.second = d.now.second
  millisecond : ∀ f ∈ funcs, f.readsMillisecond = true → c.now = d.now

omit [Power] in
theorem Agree.mono {ports ports' : List String} {funcs funcs' : List Func}
    (h : Agree ports funcs c d) (hports : ports' ⊆ ports) (hfuncs : funcs' ⊆ funcs) :
    Agree ports' funcs' c d where
  source id hid := h.source id (hports hid)
  second f hf := h.second f (hfuncs hf)
  millisecond f hf := h.millisecond f (hfuncs hf)

mutual
/-- Evaluations that agree on what the tree references and calls have the same outcome. -/
theorem eval_agree {e : Expr} (h : Agree e.ports e.funcs c d) : e.eval c = e.eval d := by
  match e with
  | .literal _ => rfl
  | .port id =>
    rw [eval, eval, h.source id (List.mem_singleton_self id)]
  | .call func memory args =>
    have hargs : evalAll c args = evalAll d args :=
      evalAll_agree (h.mono (List.Subset.refl _) (List.subset_cons_self func _))
    have hfunc : func ∈ (Expr.call func memory args).funcs := List.mem_cons_self ..
    have hcall := runCall_congr_now (h.second func hfunc) (h.millisecond func hfunc) memory
      (evalAll d args).values
    rw [eval, eval, hargs, hcall]

theorem evalAll_agree {es : List Expr} (h : Agree (portsOfAll es) (funcsOfAll es) c d) :
    evalAll c es = evalAll d es := by
  match es with
  | [] => rfl
  | e :: es =>
    have hfirst : e.eval c = e.eval d :=
      eval_agree (h.mono (List.subset_append_left ..) (List.subset_append_left ..))
    have hrest : evalAll c es = evalAll d es :=
      evalAll_agree (h.mono (List.subset_append_right ..) (List.subset_append_right ..))
    rw [evalAll, evalAll, hfirst, hrest]
end

end Expr

/-! ## Tables -/

/-- What references see of a port. -/
structure Reading where
  enabled : Bool
  lastRead : Value

namespace Table

variable {δ : Type} {t : Table δ}

/-- The table with other readings of its ports. -/
def withReadings (t : Table δ) (readings : String → Reading) : Table δ :=
  t.map fun p =>
    { p with enabled := (readings p.id).enabled, lastRead := (readings p.id).lastRead }

theorem withReadings_slotOf? (t : Table δ) (readings : String → Reading) :
    (t.withReadings readings).slotOf? = t.slotOf? := by
  refine slotOf?_congr ?_
  intro slot
  unfold withReadings
  rw [get?_map, Option.map_map]
  rfl

/-- A reference sees the reading of the port, when there is one. -/
theorem withReadings_source {slot : Nat} {p : Port δ} {id : String}
    (hslot : t.slotOf? id = some slot) (hget : t.get? slot = some p)
    (readings : String → Reading) :
    (t.withReadings readings).source id =
      if (readings p.id).enabled then (readings p.id).lastRead else none := by
  unfold source find?
  rw [withReadings_slotOf?, hslot, Option.bind_some]
  unfold withReadings
  rw [get?_map, hget, Option.map_some, Option.bind_some]

/-- Readings that agree on the triggers of a port agree on what its expression references. -/
theorem Wired.withReadings_source_eq (h : t.Wired) {slot : Nat} {p : Port δ} {expr : Expr}
    (hget : t.get? slot = some p) (hlive : p.live = some expr) {readings others : String → Reading}
    (hread : ∀ other q, t.get? other = some q → p.triggers.contains other = true →
      readings q.id = others q.id) {id : String} (hid : id ∈ expr.ports) :
    (t.withReadings readings).source id = (t.withReadings others).source id := by
  cases hslot : t.slotOf? id with
  | none =>
    -- a reference to a port that is not there reads nothing
    unfold source find?
    rw [withReadings_slotOf?, withReadings_slotOf?, hslot]
    rfl
  | some other =>
    rcases slotOf?_eq_some hslot with ⟨q, hq, rfl⟩
    have htrigger := (h.contains_triggers hget hlive hq).mpr hid
    rw [withReadings_source hslot hq, withReadings_source hslot hq, hread other q hq htrigger]

end Table

namespace Engine

section

open Table

variable {δ : Type} [Driver δ] [Power] {e : Engine δ} {slot : Nat} {p : Port δ} {expr tree : Expr}
  {readings others : String → Reading} {now now' : Now}

/-- Whatever memories the live expression of a port has, its evaluation depends on nothing but what
triggers the port: the readings of ports in trigger slots, the time when the milliseconds are a
trigger, and the wall-clock second when that is one. -/
theorem Reachable.eval_agree_on_triggers (h : e.Reachable) (hget : e.table.get? slot = some p)
    (hlive : p.live = some expr) (htree : tree.reset = expr.reset)
    (hread : ∀ other q, e.table.get? other = some q → p.triggers.contains other = true →
      readings q.id = others q.id)
    (hmillisecond : p.triggers.meets Triggers.millisecond = true → now = now')
    (hsecond : p.triggers.meets Triggers.second = true → now.second = now'.second) :
    tree.eval ⟨(e.table.withReadings readings).source, now⟩ =
      tree.eval ⟨(e.table.withReadings others).source, now'⟩ := by
  have hports : tree.ports = expr.ports := by
    rw [← Expr.ports_reset, htree, Expr.ports_reset]
  have hfuncs : tree.funcs = expr.funcs := by
    rw [← Expr.funcs_reset, htree, Expr.funcs_reset]
  have htriggers : p.triggers = expr.triggers e.table.slotOf? := h.wired.triggers hget hlive
  refine Expr.eval_agree ⟨?_, ?_, ?_⟩
  · intro id hid
    rw [hports] at hid
    exact h.wired.withReadings_source_eq hget hlive hread hid
  · intro f hf hreads
    have hclock : expr.readsSecond = true := List.any_eq_true.mpr ⟨f, hfuncs ▸ hf, hreads⟩
    apply hsecond
    rw [Triggers.meets_iff]
    refine ⟨63, ?_, by decide⟩
    rw [htriggers, Expr.contains_triggers]
    exact Or.inr (Or.inl ⟨hclock, rfl⟩)
  · intro f hf hreads
    have hclock : expr.readsMillisecond = true := List.any_eq_true.mpr ⟨f, hfuncs ▸ hf, hreads⟩
    apply hmillisecond
    rw [Triggers.meets_iff]
    refine ⟨62, ?_, by decide⟩
    rw [htriggers, Expr.contains_triggers]
    exact Or.inr (Or.inr ⟨hclock, rfl⟩)

end

attribute [local instance] Power.rounded

/-- The port `c` adds the second to `a`, and `b` is no business of it. -/
def dating : Engine Simulated :=
  (start EngineConfig.initial).run [
    .addPort (PortConfig.virtualOutput "a") none,
    .addPort (PortConfig.virtualOutput "b") none,
    .addPort { PortConfig.virtualOutput "c" with expression := "ADD($a, TIME())" } none]

/-- Neither another value of `b` nor a later millisecond of the same second is seen. -/
theorem eval_agree_within_second :
    let readings (x : Number) : String → Reading := fun id =>
      ⟨true, if id = "b" then some x else some 5⟩
    ∃ expr, (dating.table.get? 2).bind Port.live = some expr ∧
      expr.eval ⟨(dating.table.withReadings (readings 1)).source, ⟨0, some 1000⟩⟩ =
        expr.eval ⟨(dating.table.withReadings (readings 2)).source, ⟨7, some 1999⟩⟩ := by
  intro readings
  have hreachable : dating.Reachable := (reachable_start _).run _
  have hport : (dating.table.get? 2).any (fun p => p.live.isSome && !p.triggers.contains 1 &&
      !p.triggers.meets Triggers.millisecond) = true := by
    decide +kernel
  have hb : dating.table.slotOf? "b" = some 1 := by
    decide +kernel
  rcases (Option.any_eq_true _ _).mp hport with ⟨p, hget, hp⟩
  simp only [Bool.and_eq_true, Bool.not_eq_true'] at hp
  rcases hp with ⟨⟨hlive, hother⟩, hclock⟩
  rcases Option.isSome_iff_exists.mp hlive with ⟨expr, hexpr⟩
  refine ⟨expr, by rw [hget, Option.bind_some, hexpr], ?_⟩
  refine hreachable.eval_agree_on_triggers hget hexpr rfl ?_ ?_ (fun _ => rfl)
  · intro other q hq htrigger
    have hne : q.id ≠ "b" := by
      intro hid
      have hslot := hreachable.wired.distinct.slotOf? hq
      rw [hid, hb] at hslot
      rw [← Option.some.inj hslot, hother] at htrigger
      cases htrigger
    simp [readings, hne]
  · intro hmeets
    rw [hclock] at hmeets
    cases hmeets

end Engine

end PortLogic
