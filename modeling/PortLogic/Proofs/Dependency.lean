import PortLogic.Device.Simulated
import PortLogic.Number.Power
import PortLogic.Proofs.Reachable

/-!
# PortLogic.Proofs.Dependency — which changes a tick acts on

When anything that triggers a live expression changes, the tick evaluates it, unless the guard
against self-triggering holds the port back (`evaluated_iff_not_heldBack`). The guard asks whether
the port references itself, has a change that no tick has detected, and has its own expression on
record as the reason of its last change. What triggers the expression besides does not matter to it.

The record can be out of date: disabling a port takes its value and leaves the reason. So a port
that is enabled again can be held back although its expression did not make the change
(`stale_reason_hides_dependency`).
-/

namespace PortLogic

namespace Engine

section

variable {δ : Type} [Driver δ] {e : Engine δ} {now : Now} {slot trigger : Nat} {p : Port δ}

/-- The guard against self-triggering holds the port in a slot back: the port references itself, has
a change that no tick has detected, and its own expression is on record as the reason of its last
change. The record is all that counts, and disabling a port or assigning its expression leaves it as
it was. -/
def HeldBack (slot : Nat) (p : Port δ) : Prop :=
  p.hasChanged = true ∧ p.reason = .expression ∧ p.triggers.contains slot = true

variable [Power]

/-- An output takes part in detection as it is. -/
theorem sampled_get?_of_output (hget : e.table.get? slot = some p) (houtput : p.output = true) :
    (e.sampled now).table.get? slot = some p := by
  rw [sampled_get?, hget, Option.map_some, p.sample_of_output houtput]

/-- An output with a live expression is evaluated when a trigger of the tick concerns it. -/
theorem mem_evaluated_iff_isTriggered (hget : e.table.get? slot = some p)
    (henabled : p.enabled = true) (houtput : p.output = true) (hlive : p.live.isSome = true) :
    slot ∈ (e.tick now).1.evaluated ↔
      p.isTriggered slot (e.tickMask now) (e.selfCaused now) = true := by
  rcases p.acknowledge_eq with ⟨reason, detected, hack⟩
  have hready : (e.ready now).table.get? slot = some { p with reason, detected } := by
    rw [ready_get?, hget, Option.map_some, p.sample_of_output houtput, hack]
  rcases Option.isSome_iff_exists.mp hlive with ⟨expr, hexpr⟩
  rw [mem_tick_evaluated]
  constructor
  · rintro ⟨q, expr', hq, hfires⟩
    rw [hready] at hq
    obtain rfl := Option.some.inj hq
    exact hfires.triggered
  · intro htriggered
    exact ⟨_, expr, hready, hexpr, henabled, houtput, htriggered⟩

/-- What a tick acts on evaluates an output that it triggers, unless that output is held back. -/
theorem isTriggered_iff (hget : e.table.get? slot = some p) (houtput : p.output = true)
    (hacts : e.ActsOn now trigger)
    (htrigger : trigger = slot ∨ p.triggers.contains trigger = true) :
    p.isTriggered slot (e.tickMask now) (e.selfCaused now) = true ↔ ¬HeldBack slot p := by
  have hsampled : (e.sampled now).table.get? slot = some p := sampled_get?_of_output hget houtput
  have hcaused : (e.selfCaused now).contains slot = true ↔
      p.hasChanged = true ∧ p.reason = .expression := by
    rw [contains_selfCaused]
    constructor
    · rintro ⟨q, hq, hchanged⟩
      rwa [← Option.some.inj (hsampled.symm.trans hq)] at hchanged
    · intro hchanged
      exact ⟨p, hsampled, hchanged⟩
  have hmeets : (e.tickMask now).meets (p.triggers ∪ Triggers.only slot) = true := by
    rw [Triggers.meets_iff]
    refine ⟨trigger, contains_tickMask.mpr hacts, ?_⟩
    rw [Triggers.contains_union, Triggers.contains_only, Bool.or_eq_true, decide_eq_true_iff]
    rcases htrigger with heq | hcontains
    · exact Or.inr heq.symm
    · exact Or.inl hcontains
  unfold Port.isTriggered HeldBack
  simp only
  rw [hmeets, Bool.and_true, Bool.not_eq_true', ← Bool.not_eq_true]
  simp only [Bool.and_eq_true, hcaused]
  -- the change of the port itself is in the mask, so that the guard asks for the rest only
  constructor
  · rintro hnot ⟨hchanged, hreason, hown⟩
    exact hnot ⟨⟨contains_tickMask.mpr (ActsOn.change hsampled hchanged), hchanged, hreason⟩, hown⟩
  · rintro hnot ⟨⟨-, hchanged, hreason⟩, hown⟩
    exact hnot ⟨hchanged, hreason, hown⟩

/-- When a trigger of a live expression comes up, the tick evaluates the expression if and only if
the port is not held back. -/
theorem evaluated_iff_not_heldBack (hget : e.table.get? slot = some p)
    (henabled : p.enabled = true) (houtput : p.output = true) (hlive : p.live.isSome = true)
    (htrigger : p.triggers.contains trigger = true) (hacts : e.ActsOn now trigger) :
    slot ∈ (e.tick now).1.evaluated ↔ ¬HeldBack slot p := by
  rw [mem_evaluated_iff_isTriggered hget henabled houtput hlive]
  exact isTriggered_iff hget houtput hacts (Or.inr htrigger)

end

attribute [local instance] Power.rounded

/-- The port `c` is about to add `a` to itself, and both have a value from outside. -/
def adding : Engine Simulated :=
  (start EngineConfig.initial).run [
    .addPort (PortConfig.virtualOutput "a") none,
    .addPort { PortConfig.virtualOutput "c" with expression := "ADD($, $a)" } none,
    .setValue "a" 1,
    .setValue "c" 1]

/-- A change from outside does not keep the expression of a port from a change of its source. -/
theorem evaluated_of_native_change :
    1 ∈ (adding.tick ⟨0, none⟩).1.evaluated := by
  have hport : (adding.table.get? 1).any (fun p => p.enabled && p.output && p.live.isSome &&
      p.triggers.contains 0 && p.hasChanged && p.reason = .native) = true := by
    decide +kernel
  have hchanged : ((adding.sampled ⟨0, none⟩).table.get? 0).any Port.hasChanged = true := by
    decide +kernel
  rcases (Option.any_eq_true _ _).mp hport with ⟨p, hget, hp⟩
  rcases (Option.any_eq_true _ _).mp hchanged with ⟨q, hq, hqchanged⟩
  simp only [Bool.and_eq_true, decide_eq_true_eq] at hp
  rcases hp with ⟨⟨⟨⟨⟨henabled, houtput⟩, hlive⟩, htrigger⟩, -⟩, hreason⟩
  rw [evaluated_iff_not_heldBack hget henabled houtput hlive htrigger
    (ActsOn.change hq hqchanged)]
  rintro ⟨-, hexpression, -⟩
  rw [hreason] at hexpression
  cases hexpression

/-- The port `c` adds `a` to itself and has been disabled after its expression changed it, before a
tick detected that change. -/
def interrupted : Engine Simulated :=
  (start EngineConfig.initial).run [
    .addPort (PortConfig.virtualOutput "a") none,
    .addPort { PortConfig.virtualOutput "c" with expression := "ADD(DEFAULT($, 0), $a)" } none,
    .setValue "a" 1,
    .tick ⟨0, none⟩,
    .tick ⟨100, none⟩,
    .setValue "c" 10,
    .tick ⟨200, none⟩,
    .disable "c"]

/-- The same ports when `c` has been enabled again and `a` has a new value. -/
def resumed : Engine Simulated :=
  interrupted.run [.enable "c", .setValue "a" 5]

/-- The tick finds the change of `a` and does not evaluate `c`, which depends on it, although the
last change of `c` was made by disabling it. -/
theorem stale_reason_hides_dependency :
    ¬∀ (e : Engine Simulated) (now : Now) (slot trigger : Nat) (p : Port Simulated),
      e.Reachable → e.table.get? slot = some p → p.enabled = true → p.output = true →
      p.live.isSome = true → trigger ≠ slot → p.triggers.contains trigger = true →
      e.ActsOn now trigger → slot ∈ (e.tick now).1.evaluated := by
  intro h
  have hport : (resumed.table.get? 1).any (fun p =>
      p.enabled && p.output && p.live.isSome && p.triggers.contains 0) = true := by
    decide +kernel
  have hchanged : ((resumed.sampled ⟨300, none⟩).table.get? 0).any Port.hasChanged = true := by
    decide +kernel
  rcases (Option.any_eq_true _ _).mp hport with ⟨p, hget, hp⟩
  rcases (Option.any_eq_true _ _).mp hchanged with ⟨q, hq, hqchanged⟩
  simp only [Bool.and_eq_true] at hp
  rcases hp with ⟨⟨⟨henabled, houtput⟩, hlive⟩, htrigger⟩
  have hreachable : resumed.Reachable := ((reachable_start _).run _).run _
  have hevaluated : 1 ∈ (resumed.tick ⟨300, none⟩).1.evaluated :=
    h resumed ⟨300, none⟩ 1 0 p hreachable hget henabled houtput hlive Nat.zero_ne_one htrigger
      (ActsOn.change hq hqchanged)
  have hnone : (resumed.tick ⟨300, none⟩).1.evaluated = [] := by
    decide +kernel
  rw [hnone] at hevaluated
  cases hevaluated

end Engine

end PortLogic
