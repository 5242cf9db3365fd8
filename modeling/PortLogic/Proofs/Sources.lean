import PortLogic.Number.Power
import PortLogic.Proofs.Freshness
import PortLogic.Proofs.Restart

/-!
# PortLogic.Proofs.Sources — stored sources and live trees

A port stores the source of its value expression and, while it is an enabled output, has the tree of
that source live. Registering, assigning, enabling and disabling set the two apart from each other,
and evaluations advance the memories of the tree. In a reachable engine they are in step
(`Reachable.inStep`): up to its memories, a live tree is that of the stored source. The stored
sources of a reachable engine form no loop either, live or not. So nothing stands in the way of a
disabled port: enabling it always works (`Reachable.enable_works`).
-/

namespace PortLogic

open Table

namespace Port

variable {δ : Type} {p : Port δ}

/-- The stored source, the live tree and the transforms of a port are in step. -/
structure InStep (p : Port δ) : Prop where
  /-- An input has no value expression. -/
  input : p.output = false → p.expression = "" ∧ p.live = none
  disabled : p.enabled = false → p.live = none
  /-- An enabled output is live when it has a source. -/
  isSome_live : p.enabled = true → p.output = true → (p.live.isSome = true ↔ p.expression ≠ "")
  /-- What is live is the tree of the source, up to its memories. -/
  live : ∀ e, p.live = some e → Expr.parse p.id p.expression = .ok e.reset
  /-- A stored source can be read, whether it is live or not. -/
  expression : p.expression ≠ "" → ∃ e, Expr.parse p.id p.expression = .ok e
  readTransform : ∀ e, p.readTransform = some e → ∀ id ∈ e.ports, id = p.id
  writeTransform : ∀ e, p.writeTransform = some e → ∀ id ∈ e.ports, id = p.id

/-- Only an output has a source. -/
theorem Coherent.expression_of_input (h : p.Coherent) (hinput : p.output = false) :
    p.expression = "" := by
  by_contra hne
  rw [Coherent, if_neg hne, hinput] at h
  cases h.1

theorem Coherent.live_of_empty (h : p.Coherent) (hempty : p.expression = "") : p.live = none := by
  rwa [Coherent, if_pos hempty] at h

theorem Coherent.live_of_disabled (h : p.Coherent) (hdisabled : p.enabled = false) :
    p.live = none := by
  cases hlive : p.live with
  | none => rfl
  | some e =>
    have henabled := (h.live hlive).1
    rw [hdisabled] at henabled
    cases henabled

theorem Coherent.parses (h : p.Coherent) (hne : p.expression ≠ "") :
    ∃ e, Expr.parse p.id p.expression = .ok e := by
  rw [Coherent, if_neg hne] at h
  rcases h with ⟨-, e, hparse, -⟩
  exact ⟨e, hparse⟩

theorem Coherent.isSome_live_iff (h : p.Coherent) (henabled : p.enabled = true) :
    p.live.isSome = true ↔ p.expression ≠ "" := by
  constructor
  · intro hsome hempty
    rw [h.live_of_empty hempty] at hsome
    cases hsome
  · intro hne
    rw [Coherent, if_neg hne] at h
    rcases h with ⟨-, e, -, hlive⟩
    rw [← Option.isSome_map, hlive, if_pos henabled]
    rfl

end Port

/-- A transform that was read for a port references nothing but the port, whatever its memories. -/
theorem ReadFor.ports {id : String} {transform : Option Expr} (h : ReadFor id transform) {e : Expr}
    (htransform : transform = some e) : ∀ other ∈ e.ports, other = id := by
  rcases h with ⟨source, hread⟩
  rw [htransform, Option.map_some] at hread
  rcases readTransformOf_cases hread with hnone | ⟨fresh, hsome, -, hown⟩
  · cases hnone
  · intro other hother
    rw [← Option.some.inj hsome, Expr.ports_reset] at hown
    exact hown other hother

namespace Engine

section

variable {δ : Type} [Driver δ] [Power] {e : Engine δ}

/-- In a reachable engine the source, the live tree and the transforms of every port are in step. -/
theorem Reachable.inStep (h : e.Reachable) {slot : Nat} {p : Port δ}
    (hget : e.table.get? slot = some p) : p.InStep := by
  have hcoherent := h.wired.coherent hget
  have hstored := h.stored hget
  constructor
  · intro hinput
    have hempty := hcoherent.expression_of_input hinput
    exact ⟨hempty, hcoherent.live_of_empty hempty⟩
  · exact hcoherent.live_of_disabled
  · intro henabled _
    exact hcoherent.isSome_live_iff henabled
  · intro tree hlive
    exact (hcoherent.live hlive).2.2.2
  · exact hcoherent.parses
  · intro tree htree
    exact hstored.readTransform.ports htree
  · intro tree htree
    exact hstored.writeTransform.ports htree

end

section

attribute [local instance] Power.rounded

/-- The source of `edge` was given with blanks around it, and its call has a memory that the tick
has moved; the tree of the disabled `copy` is gone. -/
theorem inStep_of_ticked :
    let e := (start EngineConfig.initial : Engine Simulated).run [
      .addPort (PortConfig.virtualOutput "a") none,
      .addPort { PortConfig.virtualOutput "edge" with
        expression := "  rising( $a )\n", readTransform := "ADD($, 1)" } none,
      .addPort { PortConfig.virtualOutput "copy" with expression := "$edge" } none,
      .setValue "a" 1,
      .tick ⟨0, none⟩,
      .disable "copy"]
    ∃ edge copy, e.table.get? 1 = some edge ∧ e.table.get? 2 = some copy ∧
      edge.expression = "rising( $a )" ∧ edge.live.any (fun tree => tree != tree.reset) = true ∧
      copy.enabled = false ∧ copy.expression = "$edge" ∧ edge.InStep ∧ copy.InStep := by
  intro e
  have hports : ((e.table.get? 1).any fun p => decide (p.expression = "rising( $a )") &&
      p.live.any fun tree => tree != tree.reset) = true ∧
      ((e.table.get? 2).any fun p => !p.enabled && decide (p.expression = "$edge")) = true := by
    decide +kernel
  rcases (Option.any_eq_true _ _).mp hports.1 with ⟨edge, hedge, hadvanced⟩
  rcases (Option.any_eq_true _ _).mp hports.2 with ⟨copy, hcopy, hdisabled⟩
  simp only [Bool.and_eq_true, Bool.not_eq_true', decide_eq_true_eq] at hadvanced hdisabled
  have hreachable : e.Reachable := (reachable_start _).run _
  exact ⟨edge, copy, hedge, hcopy, hadvanced.1, hadvanced.2, hdisabled.1, hdisabled.2,
    Reachable.inStep hreachable hedge, Reachable.inStep hreachable hcopy⟩

end

/-! ## Enabling -/

section

variable {δ : Type} [Driver δ] [Power] {e : Engine δ} {id : String} {slot : Nat} {p : Port δ}

/-- The stored source of a port is read for it: it parses and closes no loop. -/
theorem Reachable.readExpression_stored (h : e.Reachable) (hget : e.table.get? slot = some p)
    (hne : p.expression ≠ "") :
    ∃ expr, Expr.parse p.id p.expression = .ok expr ∧
      e.readExpression p.id p.expression = .ok expr := by
  rcases (h.wired.coherent hget).parses hne with ⟨expr, hparse⟩
  have hdepth : e.table.loopDepth p.id expr ≤ 1 :=
    h.wired.loopDepth_le h.wired (List.Subset.refl _) (h.wired.distinct.find? hget) hparse
  exact ⟨expr, hparse, readExpression_eq_ok.mpr ⟨hparse, hdepth⟩⟩

/-- The only error of enabling is that there is no such port. -/
theorem Reachable.enable_eq_error (h : e.Reachable) {err : Error}
    (herr : (e.enable id).1 = .error err) : e.table.find? id = none ∧ err = .notFound id := by
  rcases Engine.enable_eq_error herr with ⟨hnone, rfl⟩ | ⟨slot, p, hentry, -, hne, hread⟩
  · refine ⟨?_, rfl⟩
    by_contra hfound
    rcases Option.ne_none_iff_exists'.mp hfound with ⟨p, hp⟩
    rcases exists_entry? hp with ⟨slot, hentry⟩
    rw [hnone] at hentry
    cases hentry
  · rcases entry?_eq_some hentry with ⟨-, hget, rfl⟩
    rcases h.readExpression_stored hget hne with ⟨expr, -, hok⟩
    rw [hread] at hok
    cases hok

/-- Enabling leaves an enabled port alone, and gives a disabled one the tree of its stored
source. -/
theorem Reachable.enable_cases (h : e.Reachable) (hfind : e.table.find? id = some p) :
    (p.enabled = true ∧ e.enable id = (.ok (), e)) ∨
      p.enabled = false ∧ ∃ slot, e.entry? id = some (slot, p) ∧
        e.enable id =
          (.ok (), (((e.modify slot fun _ =>
            { p with enabled := true, live := p.storedTree, sampledAt := none,
                     dirty := true }).refreshTriggers).touchSlot slot).notify
                (.portUpdate id)) := by
  rcases exists_entry? hfind with ⟨slot, hentry⟩
  rcases Engine.enable_cases e id with
    ⟨err, hen⟩ | ⟨slot', p', hentry', ⟨henabled, hen⟩ | ⟨hdisabled, live, hread, hen⟩⟩
  · have hmissing := (h.enable_eq_error (congrArg Prod.fst hen)).1
    rw [hfind] at hmissing
    cases hmissing
  · rw [hentry] at hentry'
    cases hentry'
    exact Or.inl ⟨henabled, hen⟩
  · rw [hentry] at hentry'
    cases hentry'
    rcases entry?_eq_some hentry with ⟨-, -, rfl⟩
    -- what was read of the stored source is its tree
    have hlive : live = p.storedTree := by
      rcases hread with ⟨hempty, rfl⟩ | ⟨expr, hexpr, rfl⟩
      · exact (Port.storedTree_of_empty hempty).symm
      · have hparse := (readExpression_eq_ok.mp hexpr).1
        rw [Port.storedTree, hparse]
        rfl
    rw [hlive] at hen
    exact Or.inr ⟨hdisabled, slot, hentry, hen⟩

/-- After enabling, a port is enabled with the source that it had and with the tree of that source:
fresh when the port was disabled, and up to its memories otherwise. -/
theorem Reachable.enable_find? (h : e.Reachable) (hfind : e.table.find? id = some p) :
    (e.enable id).1 = .ok () ∧
      ∃ q, (e.enable id).2.table.find? id = some q ∧ q.enabled = true ∧
        q.expression = p.expression ∧ q.live.map Expr.reset = q.storedTree ∧
        (p.enabled = false → q.live = q.storedTree) ∧
        (p.enabled = true → (e.enable id).2 = e) := by
  have hafter : (e.enable id).2.table.Wired := enable_wired h.wired id
  rcases h.enable_cases hfind with ⟨henabled, hen⟩ | ⟨hdisabled, slot, hentry, hen⟩
  · rcases find?_eq_some hfind with ⟨slot, -, hget, -⟩
    have hlive := (h.wired.coherent hget).live_reset henabled
    rw [hen]
    refine ⟨rfl, p, hfind, henabled, rfl, hlive, ?_, fun _ => rfl⟩
    intro hdisabled
    rw [henabled] at hdisabled
    cases hdisabled
  · rcases entry?_eq_some hentry with ⟨-, -, rfl⟩
    rw [hen] at hafter ⊢
    -- the slot holds the port as it was revived, with triggers computed again
    rcases (modify_replaces { p with enabled := true, live := p.storedTree, sampledAt := none,
                                     dirty := true } hentry).refreshTriggers slot with
      ⟨triggers, hget⟩
    rw [if_pos rfl, Option.map_some] at hget
    have hlive := (hafter.coherent hget).live_reset rfl
    refine ⟨rfl, _, (hafter.distinct.find? hget :), rfl, rfl, hlive, fun _ => rfl, ?_⟩
    intro henabled
    rw [hdisabled] at henabled
    cases henabled

/-- Enabling works for every port of a reachable engine, whatever was done since the port was
disabled: its stored source can be read, and becomes its live tree as it is read. A port that is
enabled already stays as it is. -/
theorem Reachable.enable_works (h : e.Reachable) (id : String) :
    ((e.enable id).1 = .ok () ↔ (e.table.find? id).isSome = true) ∧
      (∀ err, (e.enable id).1 = .error err → err = .notFound id) ∧
      ∀ p, e.table.find? id = some p →
        (p.expression ≠ "" → ∃ expr, e.readExpression id p.expression = .ok expr) ∧
        ∃ q, (e.enable id).2.table.find? id = some q ∧ q.enabled = true ∧
          q.expression = p.expression ∧ q.live.map Expr.reset = q.storedTree ∧
          (p.enabled = false → q.live = q.storedTree) ∧
          (p.enabled = true → (e.enable id).2 = e) := by
  refine ⟨?_, fun err herr => (h.enable_eq_error herr).2, ?_⟩
  · constructor
    · intro hok
      rcases Engine.enable_cases e id with ⟨err, hen⟩ | ⟨slot, p, hentry, -⟩
      · rw [hen] at hok
        cases hok
      · exact Option.isSome_iff_exists.mpr ⟨p, find?_of_entry? hentry⟩
    · intro hfound
      rcases Option.isSome_iff_exists.mp hfound with ⟨p, hfind⟩
      exact (h.enable_find? hfind).1
  · intro p hfind
    refine ⟨?_, (h.enable_find? hfind).2⟩
    intro hne
    rcases find?_eq_some hfind with ⟨slot, -, hget, rfl⟩
    rcases h.readExpression_stored hget hne with ⟨expr, -, hread⟩
    exact ⟨expr, hread⟩

end

attribute [local instance] Power.rounded

/-- A port is enabled after the port that it references was removed and registered anew, with a
reference to a third one. That one could not close the loop while the port was disabled. -/
theorem enable_works_after_edits :
    let e := (start EngineConfig.initial : Engine Simulated).run [
      .addPort (PortConfig.virtualOutput "a") none,
      .addPort { PortConfig.virtualOutput "b" with expression := " add($a, $b) " } none,
      .disable "b",
      .unregister "a",
      .addPort (PortConfig.virtualOutput "c") none,
      .addPort { PortConfig.virtualOutput "a" with expression := "$c" } none,
      .setExpression "c" "$b"]
    (e.table.find? "c").map Port.expression = some "" ∧ (e.enable "b").1 = .ok () ∧
      ∃ b, (e.enable "b").2.table.find? "b" = some b ∧ b.enabled = true ∧
        b.expression = "add($a, $b)" ∧ b.live = b.storedTree := by
  intro e
  have hport : ((e.table.find? "b").any fun p =>
      !p.enabled && decide (p.expression = "add($a, $b)")) = true := by
    decide +kernel
  rcases (Option.any_eq_true _ _).mp hport with ⟨p, hfind, hp⟩
  simp only [Bool.and_eq_true, Bool.not_eq_true', decide_eq_true_eq] at hp
  have hreachable : e.Reachable := (reachable_start _).run _
  rcases Reachable.enable_works hreachable "b" with ⟨hok, -, hworks⟩
  rcases hworks p hfind with ⟨-, q, hq, hon, hsource, -, hlive, -⟩
  refine ⟨by decide +kernel, hok.mpr (by rw [hfind]; rfl), q, hq, hon, ?_, hlive hp.1⟩
  exact hsource.trans hp.2

end Engine

end PortLogic
