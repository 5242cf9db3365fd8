import PortLogic.Expr.Eval
import PortLogic.Proofs.Func.Alike

/-!
# PortLogic.Proofs.Expr.Plain — expressions that only depend on the ports they reference

A *plain* expression calls no function that reads the time or has a memory. Its value depends on
what its references read and on nothing else (`eval_congr`), an evaluation leaves it as it is
(`eval_next`), and it does not see the sign of zero when its tables have fixed keys (`eval_alike`).
A *stateless* expression may read the time, and an evaluation leaves it as it is all the same
(`eval_stateless`).
-/

namespace PortLogic

open List (Forall₂)

theorem map_keys {α β : Type} (f : α → β) (xs : List α) : keys (xs.map f) = (keys xs).map f := by
  induction xs using keys.induct with
  | case1 => rfl
  | case2 x => rfl
  | case3 x y rest ih => simp only [List.map_cons, keys, ih]

theorem mem_of_mem_keys {α : Type} {x : α} {xs : List α} (h : x ∈ keys xs) : x ∈ xs := by
  induction xs using keys.induct with
  | case1 => exact h
  | case2 y => exact h
  | case3 y z rest ih =>
    rcases List.mem_cons.mp h with rfl | hrest
    · exact List.mem_cons_self ..
    · exact List.mem_cons_of_mem _ (List.mem_cons_of_mem _ (ih hrest))

namespace Expr

/-- No function that the expression calls reads the time or has a memory. -/
def IsPlain (e : Expr) : Prop :=
  ∀ f ∈ e.funcs, f.IsPlain

instance (e : Expr) : Decidable e.IsPlain :=
  inferInstanceAs (Decidable (∀ f ∈ e.funcs, f.IsPlain))

/-- No function that the expression calls has a memory. -/
def IsStateless (e : Expr) : Prop :=
  ∀ f ∈ e.funcs, Memory.initial f = .none

instance (e : Expr) : Decidable e.IsStateless :=
  inferInstanceAs (Decidable (∀ f ∈ e.funcs, Memory.initial f = .none))

mutual
/-- Whether the keys of every table in the expression reference no port. -/
def hasFixedKeys : Expr → Bool
  | .literal _ => true
  | .port _ => true
  | .call func _ args =>
    (!func.looksUp || (keys (args.drop 1)).all fun key => key.ports.isEmpty) &&
      haveFixedKeys args
/-- Whether the keys of every table in the expressions reference no port. -/
def haveFixedKeys : List Expr → Bool
  | [] => true
  | e :: es => e.hasFixedKeys && haveFixedKeys es
end

variable {c d : Context}

theorem evalAll_values [Power] (c : Context) (es : List Expr) :
    (evalAll c es).values = es.map fun e => (e.eval c).value := by
  induction es with
  | nil => rfl
  | cons e es ih => rw [evalAll, List.map_cons, ih]

theorem mem_funcsOfAll {es : List Expr} {f : Func} :
    f ∈ funcsOfAll es ↔ ∃ e ∈ es, f ∈ e.funcs := by
  induction es with
  | nil => simp [funcsOfAll]
  | cons e es ih => simp [funcsOfAll, ih]

/-! ## Calls -/

/-- A list of values is defined when it is one of numbers. -/
theorem allDefined?_eq_some {values : List Value} {xs : List Number} :
    allDefined? values = some xs ↔ values = xs.map some := by
  unfold allDefined?
  induction values generalizing xs with
  | nil => cases xs <;> simp
  | cons v values ih =>
    rw [List.mapM_cons]
    simp only [id_eq, Option.bind_eq_bind, Option.bind_eq_some_iff, ih, Option.pure_def,
      Option.some.injEq]
    constructor
    · rintro ⟨x, rfl, rest, rfl, rfl⟩
      rfl
    · intro h
      cases xs with
      | nil => cases h
      | cons x rest =>
        rcases List.cons.inj h with ⟨rfl, rfl⟩
        exact ⟨x, rfl, rest, rfl, rfl⟩

theorem alike_map_some {xs : List Number} {ws : List Value}
    (h : Forall₂ Value.Alike (xs.map some) ws) :
    ∃ ys, ws = ys.map some ∧ Forall₂ Number.Alike xs ys := by
  induction xs generalizing ws with
  | nil =>
    cases h
    exact ⟨[], rfl, Forall₂.nil⟩
  | cons x xs ih =>
    cases h with
    | cons hx hrest =>
      cases hx with
      | @some _ y hxy =>
        rcases ih hrest with ⟨ys, rfl, hys⟩
        exact ⟨y :: ys, rfl, Forall₂.cons hxy hys⟩

theorem flip_alike {vs ws : List Value} (h : Forall₂ Value.Alike vs ws) :
    Forall₂ Value.Alike ws vs :=
  (h.imp fun _ _ hvw => hvw.symm).flip

/-- A plain call is alike on alike values, when those of the keys of its table are the same. -/
theorem runCall_alike [Power] [LawfulPower] {func : Func} {vs ws : List Value}
    (hplain : func.IsPlain) (h : Forall₂ Value.Alike vs ws)
    (hkeys : func.looksUp = true → keys (vs.drop 1) = keys (ws.drop 1)) (m m' : Memory)
    (now now' : Now) :
    Value.Alike (runCall func m vs now).1 (runCall func m' ws now').1 := by
  unfold runCall
  split
  · exact Func.tolerate?_alike h
  · cases hdefined : allDefined? vs with
    | some xs =>
      obtain rfl := allDefined?_eq_some.mp hdefined
      rcases alike_map_some h with ⟨ys, rfl, hys⟩
      rw [allDefined?_eq_some.mpr rfl]
      refine Func.run_alike hplain hys ?_ m m'
      intro hlooks
      have hkeys := hkeys hlooks
      rw [← List.map_drop, ← List.map_drop, map_keys, map_keys] at hkeys
      exact List.map_injective_iff.mpr (fun _ _ => Option.some.inj) hkeys
    | none =>
      have hundefined : allDefined? ws = none := by
        rw [Option.eq_none_iff_forall_ne_some]
        intro ys hys
        obtain rfl := allDefined?_eq_some.mp hys
        rcases alike_map_some (flip_alike h) with ⟨xs, rfl, -⟩
        rw [allDefined?_eq_some.mpr rfl] at hdefined
        cases hdefined
      rw [hundefined]
      exact Option.Rel.none

/-- A call of a function without memory keeps whatever memory there is. -/
theorem runCall_of_stateless [Power] {func : Func} (hnone : Memory.initial func = .none)
    (m : Memory) (vs : List Value) (now : Now) : (runCall func m vs now).2.1 = m := by
  unfold runCall
  split
  · rfl
  · cases allDefined? vs with
    | none => rfl
    | some xs => exact Func.run_of_stateless hnone m

/-- A plain call does not look at the time or at its memory. -/
theorem runCall_of_plain [Power] {func : Func} (hplain : func.IsPlain) (m m' : Memory)
    (vs : List Value)
    (now now' : Now) : (runCall func m vs now).1 = (runCall func m' vs now').1 := by
  unfold runCall
  split
  · rfl
  · cases allDefined? vs with
    | none => rfl
    | some xs =>
      have htime : func.compute? xs now = func.compute? xs now' :=
        Func.compute?_congr_now (by simp [hplain.2.1]) (by simp [hplain.2.2])
      simp only
      rw [Func.run_of_plain hplain, Func.run_of_plain hplain, htime]

/-! ## Evaluations -/

mutual
/-- An evaluation leaves an expression without memories as it is. -/
theorem eval_stateless [Power] {e : Expr} (hnone : e.IsStateless) (c : Context) :
    (e.eval c).next = e := by
  match e with
  | .literal _ => rfl
  | .port _ => rfl
  | .call func memory args =>
    rw [eval]
    simp only
    rw [runCall_of_stateless (hnone func (List.mem_cons_self ..)),
      evalAll_stateless (fun f hf => hnone f (List.mem_cons_of_mem _ hf)) c]

theorem evalAll_stateless [Power] {es : List Expr}
    (hnone : ∀ f ∈ funcsOfAll es, Memory.initial f = .none)
    (c : Context) : (evalAll c es).next = es := by
  match es with
  | [] => rfl
  | e :: es =>
    rw [evalAll]
    simp only
    rw [eval_stateless (fun f hf => hnone f (List.mem_append_left _ hf)) c,
      evalAll_stateless (fun f hf => hnone f (List.mem_append_right _ hf)) c]
end

/-- An evaluation leaves a plain expression as it is. -/
theorem eval_next [Power] {e : Expr} (hplain : e.IsPlain) (c : Context) : (e.eval c).next = e :=
  eval_stateless (fun f hf => (hplain f hf).1) c

mutual
/-- A plain expression has one value in all contexts where its references read the same. -/
theorem eval_congr [Power] {e : Expr} (hplain : e.IsPlain)
    (hsource : ∀ id ∈ e.ports, c.source id = d.source id) :
    (e.eval c).value = (e.eval d).value := by
  match e with
  | .literal _ => rfl
  | .port id => exact hsource id (List.mem_singleton_self id)
  | .call func memory args =>
    have hfunc : func.IsPlain := hplain func (List.mem_cons_self ..)
    have hargs := evalAll_congr (fun f hf => hplain f (List.mem_cons_of_mem _ hf)) hsource
    rw [eval, eval]
    simp only
    rw [hargs]
    exact runCall_of_plain hfunc memory memory _ c.now d.now

theorem evalAll_congr [Power] {es : List Expr} (hplain : ∀ f ∈ funcsOfAll es, f.IsPlain)
    (hsource : ∀ id ∈ portsOfAll es, c.source id = d.source id) :
    (evalAll c es).values = (evalAll d es).values := by
  match es with
  | [] => rfl
  | e :: es =>
    rw [evalAll, evalAll]
    simp only
    rw [eval_congr (fun f hf => hplain f (List.mem_append_left _ hf))
        (fun id hid => hsource id (List.mem_append_left _ hid)),
      evalAll_congr (fun f hf => hplain f (List.mem_append_right _ hf))
        (fun id hid => hsource id (List.mem_append_right _ hid))]
end

mutual
/-- A plain expression whose tables have fixed keys is alike in all contexts where its references
read alike values. -/
theorem eval_alike [Power] [LawfulPower] {e : Expr} (hplain : e.IsPlain)
    (hfixed : e.hasFixedKeys = true)
    (hsource : ∀ id ∈ e.ports, Value.Alike (c.source id) (d.source id)) :
    Value.Alike (e.eval c).value (e.eval d).value := by
  match e with
  | .literal x => exact Value.Alike.refl (some x)
  | .port id => exact hsource id (List.mem_singleton_self id)
  | .call func memory args =>
    rw [hasFixedKeys, Bool.and_eq_true] at hfixed
    have hfunc : func.IsPlain := hplain func (List.mem_cons_self ..)
    have hargs : ∀ f ∈ funcsOfAll args, f.IsPlain :=
      fun f hf => hplain f (List.mem_cons_of_mem _ hf)
    refine runCall_alike hfunc (evalAll_alike hargs hfixed.2 hsource) ?_ memory memory c.now d.now
    -- the keys reference nothing, so that they have the same values and not only alike ones
    intro hlooks
    have hkeys : ∀ key ∈ keys (args.drop 1), key.ports = [] := by
      have hall := hfixed.1
      rw [hlooks] at hall
      simpa using hall
    rw [evalAll_values, evalAll_values, ← List.map_drop, ← List.map_drop, map_keys, map_keys]
    refine List.map_congr_left ?_
    intro key hkey
    have hmem : key ∈ args := List.mem_of_mem_drop (mem_of_mem_keys hkey)
    refine eval_congr (fun f hf => hargs f (mem_funcsOfAll.mpr ⟨key, hmem, hf⟩)) ?_
    rw [hkeys key hkey]
    intro id hid
    cases hid

theorem evalAll_alike [Power] [LawfulPower] {es : List Expr}
    (hplain : ∀ f ∈ funcsOfAll es, f.IsPlain) (hfixed : haveFixedKeys es = true)
    (hsource : ∀ id ∈ portsOfAll es, Value.Alike (c.source id) (d.source id)) :
    Forall₂ Value.Alike (evalAll c es).values (evalAll d es).values := by
  match es with
  | [] => exact Forall₂.nil
  | e :: es =>
    rw [haveFixedKeys, Bool.and_eq_true] at hfixed
    refine Forall₂.cons ?_ ?_
    · exact eval_alike (fun f hf => hplain f (List.mem_append_left _ hf)) hfixed.1
        fun id hid => hsource id (List.mem_append_left _ hid)
    · exact evalAll_alike (fun f hf => hplain f (List.mem_append_right _ hf)) hfixed.2
        fun id hid => hsource id (List.mem_append_right _ hid)
end

end Expr

end PortLogic
