import PortLogic.Engine.Tick
import PortLogic.Proofs.Edit

/-!
# PortLogic.Proofs.Tick — a tick, slot by slot

A tick is taken apart into its phases: the engine with its inputs *sampled*, the engine *ready* for
evaluation with the triggers of the tick, and one *turn* for each slot. A turn changes its own slot
only, so each slot is evaluated from the port it held when evaluation began.
-/

namespace PortLogic

/-! ## Ports -/

namespace Filter

/-- What pushes and resets make of a filter: its window may have changed. -/
structure Continues (f g : Filter) : Prop where
  kind : g.kind = f.kind
  width : g.width = f.width

theorem Continues.refl (f : Filter) : f.Continues f := ⟨rfl, rfl⟩

theorem reset_continues (f : Filter) : f.Continues f.reset := ⟨rfl, rfl⟩

variable [Power]

theorem push_continues (f : Filter) (sample : Number) (boolean : Bool) (transform : Option Expr) :
    f.Continues (f.push sample boolean transform).2 := by
  unfold push
  split
  · exact ⟨rfl, rfl⟩
  · exact Continues.refl f

end Filter

namespace Port

variable [Power] {δ : Type} {p : Port δ} {now : Now}

/-- An output is never sampled. -/
theorem sample_of_output [Driver δ] (h : p.output = true) (now : Now) :
    p.sample now = ⟨p, false, false⟩ := by
  unfold sample isDue
  rw [h, Bool.not_true, Bool.and_false, Bool.false_and, if_neg Bool.false_ne_true]

theorem incoming_advances (p : Port δ) (raw : Number) (now : Now) :
    Expr.Advances p.readTransform (p.incoming raw now).2 := by
  unfold incoming
  cases p.readTransform with
  | none => exact Expr.Advances.refl none
  | some transform => exact Expr.advances_eval _ transform

theorem takeSample_cases (p : Port δ) (raw : Number) (now : Now) :
    ∃ readTransform filter, Expr.Advances p.readTransform readTransform ∧
      p.filter.Continues filter ∧
      ((p.takeSample raw now = ⟨{ p with readTransform, filter }, true, false⟩) ∨
        ∃ x y, p.normalize x = some y ∧
          p.takeSample raw now = { p with readTransform, filter }.acceptSample y) := by
  have hadvances := p.incoming_advances raw now
  unfold takeSample
  generalize p.incoming raw now = taken at hadvances
  rcases taken with ⟨transformed, transform⟩
  cases transformed with
  | none => exact ⟨transform, p.filter, hadvances, Filter.Continues.refl _, Or.inl rfl⟩
  | some x =>
    have hcontinues := p.filter.push_continues x (p.kind = .boolean) transform
    simp only
    split
    · exact ⟨transform, _, hadvances, hcontinues, Or.inl rfl⟩
    · next y hy =>
      rcases Option.bind_eq_some_iff.mp hy with ⟨filtered, -, hfit⟩
      exact ⟨transform, _, hadvances, hcontinues, Or.inr ⟨filtered, y, hfit, rfl⟩⟩

/-- A sample either leaves the value of the port alone or offers it one that fits, which it does to
an enabled input only. -/
theorem sample_cases [Driver δ] (p : Port δ) (now : Now) :
    ∃ sampledAt readTransform filter driver, Expr.Advances p.readTransform readTransform ∧
      p.filter.Continues filter ∧
      ((∃ read, p.sample now =
          ⟨{ p with sampledAt, readTransform, filter, driver }, read, false⟩) ∨
        ∃ x y, p.isDue now = true ∧ p.normalize x = some y ∧
          p.sample now = { p with sampledAt, readTransform, filter, driver }.acceptSample y) := by
  have htransform := Expr.Advances.refl p.readTransform
  have hfilter := Filter.Continues.refl p.filter
  unfold sample
  split
  · next hdue =>
    simp only
    split
    · exact ⟨_, _, _, _, htransform, hfilter, Or.inl ⟨false, rfl⟩⟩
    next driver _ =>
    split
    · exact ⟨_, _, _, _, htransform, hfilter, Or.inl ⟨true, rfl⟩⟩
    · next x _ =>
      obtain ⟨readTransform, filter, hadvances, hcontinues, htaken⟩ := takeSample_cases
        { p with sampledAt := some now.uptime, driver := some (Driver.read driver now).2 } x now
      refine ⟨some now.uptime, readTransform, filter, some (Driver.read driver now).2, hadvances,
        hcontinues, ?_⟩
      rcases htaken with hkept | ⟨x, y, hfit, haccept⟩
      · exact Or.inl ⟨true, hkept⟩
      · exact Or.inr ⟨x, y, hdue, hfit, haccept⟩
  · exact ⟨_, _, _, _, htransform, hfilter, Or.inl ⟨false, rfl⟩⟩

omit [Power] in
theorem acknowledge_eq (p : Port δ) :
    ∃ reason detected, p.acknowledge = { p with reason, detected } := by
  unfold acknowledge
  split
  · exact ⟨_, _, rfl⟩
  · exact ⟨p.reason, p.detected, rfl⟩

end Port

/-! ## Slots -/

namespace Table

variable {δ : Type} {slot : Nat}

theorem contains_triggersOf {slots : List Nat} {trigger : Nat} :
    (triggersOf slots).contains trigger = true ↔ trigger ∈ slots := by
  unfold triggersOf
  rw [Triggers.contains_unionAll]
  constructor
  · rintro ⟨s, hs, hc⟩
    rcases List.mem_map.mp hs with ⟨slot, hslot, rfl⟩
    rw [Triggers.contains_only, decide_eq_true_iff] at hc
    exact hc ▸ hslot
  · intro h
    exact ⟨_, List.mem_map.mpr ⟨trigger, h, rfl⟩, by simp⟩

theorem mem_slotsWhere {t : Table δ} {condition : Port δ → Bool} :
    slot ∈ t.slotsWhere condition ↔ ∃ p, t.get? slot = some p ∧ condition p = true := by
  unfold slotsWhere
  rw [List.mem_map]
  constructor
  · rintro ⟨⟨i, p⟩, hmem, rfl⟩
    rcases List.mem_filter.mp hmem with ⟨hentry, hp⟩
    exact ⟨p, mem_entries.mp hentry, hp⟩
  · rintro ⟨p, hget, hp⟩
    exact ⟨(slot, p), List.mem_filter.mpr ⟨mem_entries.mpr hget, hp⟩, rfl⟩

end Table

/-! ## Phases -/

namespace Engine

variable {δ : Type} [Driver δ] [Power] {e : Engine δ} {now : Now} {slot : Nat} {p : Port δ}
  {expr : Expr}

/-- The engine with its inputs sampled. -/
def sampled (e : Engine δ) (now : Now) : Engine δ :=
  ((e.clock now).2.sample now).2.2

/-- The engine when evaluation begins. -/
def ready (e : Engine δ) (now : Now) : Engine δ :=
  { (e.sampled now).detect.2.2 with forced := Triggers.none }

/-- Everything that a tick acts on. -/
def tickMask (e : Engine δ) (now : Now) : Triggers :=
  (e.clock now).1 ∪ (e.sampled now).detect.1 ∪ e.forced

/-- The slots with a change that their own expression made. -/
def selfCaused (e : Engine δ) (now : Now) : Triggers :=
  (e.sampled now).detect.2.1

theorem tick_evaluated (e : Engine δ) (now : Now) :
    (e.tick now).1.evaluated =
      ((e.ready now).evaluate (e.tickMask now) (e.selfCaused now) now).evaluated := rfl

theorem tick_committed (e : Engine δ) (now : Now) :
    (e.tick now).1.committed = ((e.clock now).2.sample now).2.1 ++
      ((e.ready now).evaluate (e.tickMask now) (e.selfCaused now) now).committed := rfl

theorem tick_snd (e : Engine δ) (now : Now) :
    (e.tick now).2 =
      ((e.ready now).evaluate (e.tickMask now) (e.selfCaused now) now).engine := rfl

@[simp]
theorem sampled_get? (e : Engine δ) (now : Now) (slot : Nat) :
    (e.sampled now).table.get? slot = (e.table.get? slot).map fun p => (p.sample now).port :=
  Table.get?_map ..

@[simp]
theorem ready_get? (e : Engine δ) (now : Now) (slot : Nat) :
    (e.ready now).table.get? slot =
      (e.table.get? slot).map fun p => (p.sample now).port.acknowledge := by
  show ((e.sampled now).table.map Port.acknowledge).get? slot = _
  rw [Table.get?_map, sampled_get?, Option.map_map]
  rfl

theorem ready_get?_of_some (hget : e.table.get? slot = some p) (now : Now) :
    (e.ready now).table.get? slot = some (p.sample now).port.acknowledge := by
  rw [ready_get?, hget, Option.map_some]

theorem ready_length (e : Engine δ) (now : Now) :
    (e.ready now).table.slots.length = e.table.slots.length := by
  show (((e.clock now).2.table.map _).map _).slots.length = _
  rw [Table.length_map, Table.length_map]
  rfl

/-! ## Triggers -/

/-- What a tick acts on: the passing of a millisecond, a new second, the changes that it finds once
the inputs are sampled, and what was forced. -/
inductive ActsOn (e : Engine δ) (now : Now) : Nat → Prop where
  | millisecond : ActsOn e now 62
  | second (h : now.second ≠ e.lastSecond) : ActsOn e now 63
  | change {slot : Nat} {p : Port δ} (hget : (e.sampled now).table.get? slot = some p)
      (hchanged : p.hasChanged = true) : ActsOn e now slot
  | forced {slot : Nat} (h : e.forced.contains slot = true) : ActsOn e now slot

theorem contains_tickMask {trigger : Nat} :
    (e.tickMask now).contains trigger = true ↔ e.ActsOn now trigger := by
  unfold tickMask clock detect Triggers.millisecond Triggers.second
  simp only [Triggers.contains_union, Triggers.contains_when, Triggers.contains_only,
    Bool.or_eq_true, Bool.and_eq_true, decide_eq_true_eq, Table.contains_triggersOf,
    Table.mem_slotsWhere]
  constructor
  · rintro (((rfl | ⟨hsecond, rfl⟩) | ⟨p, hget, hchanged⟩) | hforced)
    · exact ActsOn.millisecond
    · exact ActsOn.second hsecond
    · exact ActsOn.change hget hchanged
    · exact ActsOn.forced hforced
  · intro h
    cases h with
    | millisecond => exact Or.inl (Or.inl (Or.inl rfl))
    | second h => exact Or.inl (Or.inl (Or.inr ⟨h, rfl⟩))
    | change hget hchanged => exact Or.inl (Or.inr ⟨_, hget, hchanged⟩)
    | forced h => exact Or.inr h

theorem contains_selfCaused :
    (e.selfCaused now).contains slot = true ↔
      ∃ p, (e.sampled now).table.get? slot = some p ∧ p.hasChanged = true ∧
        p.reason = .expression := by
  unfold selfCaused detect
  simp only [Table.contains_triggersOf, Table.mem_slotsWhere, Bool.and_eq_true, decide_eq_true_eq]

/-! ## Turns -/

omit [Driver δ] in
omit [Power] in
/-- A port that is replaced is there in its new form. -/
theorem modify_get?_self (hget : e.table.get? slot = some p) (q : Port δ) :
    (e.modify slot fun _ => q).table.get? slot = some q := by
  show (e.table.modify slot fun _ => q).get? slot = some q
  rw [Table.get?_modify, if_pos rfl, hget, Option.map_some]

omit [Driver δ] in
omit [Power] in
@[simp]
theorem modify_modify (e : Engine δ) (slot : Nat) (p q : Port δ) :
    ((e.modify slot fun _ => p).modify slot fun _ => q) = e.modify slot fun _ => q := by
  unfold modify Table.modify
  simp only [List.modify_modify_eq]
  congr 3
  funext entry
  cases entry <;> rfl

/-- An evaluation either commits nothing, because there is no value or no new one or because the
write fails, or it commits and announces a new value. In each case the memories advance. -/
theorem evaluateLive_cases (e : Engine δ) (slot : Nat) (p : Port δ) (expr : Expr) (now : Now) :
    let outcome := expr.eval ⟨e.table.source, now⟩
    let q := { p with live := some outcome.next }
    (e.evaluateLive slot p expr now = (false, e.modify slot fun _ => q) ∧
      ∀ x, outcome.value.bind p.normalize = some x → (p.value == some x) = true) ∨
    ∃ x writeTransform driver, outcome.value.bind p.normalize = some x ∧
      (p.value == some x) = false ∧ Expr.Advances p.writeTransform writeTransform ∧
      (((∃ err, (q.write x e.now).1 = .error err) ∧ e.evaluateLive slot p expr now =
          (false, e.modify slot fun _ => { q with writeTransform, driver })) ∨
        ((q.write x e.now).1 = .ok () ∧ e.evaluateLive slot p expr now =
          (true, (e.modify slot fun _ =>
            { q with writeTransform, driver }.committed x .expression).notify
              (.valueChange p.id (some x))))) := by
  intro outcome q
  unfold evaluateLive
  simp only
  split
  · -- the expression has no value, or none that fits
    next hnone =>
    refine Or.inl ⟨rfl, ?_⟩
    intro x hx
    rw [show outcome.value.bind p.normalize = none from hnone] at hx
    cases hx
  next x hx =>
  split
  · -- the port has the value already
    next hsame =>
    refine Or.inl ⟨rfl, ?_⟩
    intro y hy
    rw [show outcome.value.bind p.normalize = some x from hx] at hy
    rwa [← Option.some.inj hy]
  next hnew =>
  rw [Bool.not_eq_true] at hnew
  obtain ⟨writeTransform, driver, hadvances, ⟨err, hwrite, hcommit⟩ | ⟨hwrite, hcommit⟩⟩ :=
    commit_cases (e.modify slot fun _ => q) slot q x .expression
  · refine Or.inr ⟨x, writeTransform, driver, hx, hnew, hadvances, Or.inl ⟨⟨err, hwrite⟩, ?_⟩⟩
    rw [hcommit, modify_modify]
  · refine Or.inr ⟨x, writeTransform, driver, hx, hnew, hadvances, Or.inr ⟨hwrite, ?_⟩⟩
    rw [hcommit, modify_modify]

/-- An evaluation changes the port in its slot, and queues notifications. -/
theorem evaluateLive_frame (e : Engine δ) (slot : Nat) (p : Port δ) (expr : Expr) (now : Now) :
    ∃ q notifications, (e.evaluateLive slot p expr now).2 =
      { e.modify slot fun _ => q with notifications } := by
  rcases evaluateLive_cases e slot p expr now with
    ⟨h, -⟩ | ⟨x, writeTransform, driver, -, -, -, ⟨-, h⟩ | ⟨-, h⟩⟩
  · exact ⟨_, e.notifications, by rw [h]; rfl⟩
  · exact ⟨_, e.notifications, by rw [h]; rfl⟩
  · exact ⟨_, e.notifications ++ [.valueChange p.id (some x)], by rw [h]; rfl⟩

/-- The port in a slot is evaluated when its turn comes. -/
structure Fires (mask selfCaused : Triggers) (slot : Nat) (p : Port δ) (expr : Expr) : Prop where
  live : p.live = some expr
  enabled : p.enabled = true
  output : p.output = true
  triggered : p.isTriggered slot mask selfCaused = true

variable {mask caused : Triggers} {s : Progress δ}

theorem evaluateSlot_cases (mask caused : Triggers) (now : Now) (s : Progress δ) (slot : Nat) :
    (evaluateSlot mask caused now s slot = s ∧
      ∀ p expr, s.engine.table.get? slot = some p → ¬Fires mask caused slot p expr) ∨
    ∃ p expr, s.engine.table.get? slot = some p ∧ Fires mask caused slot p expr ∧
      evaluateSlot mask caused now s slot =
        ⟨(s.engine.evaluateLive slot p expr now).2, s.evaluated ++ [slot],
          s.committed ++ if (s.engine.evaluateLive slot p expr now).1 then [slot] else []⟩ := by
  unfold evaluateSlot
  cases hget : s.engine.table.get? slot with
  | none =>
    refine Or.inl ⟨rfl, ?_⟩
    intro p expr h
    cases h
  | some p =>
    cases hlive : p.live with
    | none =>
      refine Or.inl ⟨by simp only [hlive], ?_⟩
      intro q expr h hfires
      obtain rfl := Option.some.inj h
      rw [hfires.live] at hlive
      cases hlive
    | some expr =>
      simp only [hlive]
      split
      · next hguard =>
        simp only [Bool.and_eq_true] at hguard
        exact Or.inr ⟨p, expr, rfl, ⟨hlive, hguard.1.1, hguard.1.2, hguard.2⟩, rfl⟩
      · next hguard =>
        refine Or.inl ⟨rfl, ?_⟩
        intro q expr' h hfires
        obtain rfl := Option.some.inj h
        apply hguard
        rw [hfires.enabled, hfires.output, hfires.triggered]
        rfl

/-- A turn leaves every other slot alone. -/
theorem evaluateSlot_get?_of_ne {other : Nat} (h : slot ≠ other) :
    (evaluateSlot mask caused now s slot).engine.table.get? other =
      s.engine.table.get? other := by
  rcases evaluateSlot_cases mask caused now s slot with ⟨hkept, -⟩ | ⟨p, expr, -, -, heq⟩
  · rw [hkept]
  · rcases evaluateLive_frame s.engine slot p expr now with ⟨q, notifications, hframe⟩
    rw [heq]
    show (s.engine.evaluateLive slot p expr now).2.table.get? other = _
    rw [hframe]
    show (s.engine.table.modify slot fun _ => q).get? other = _
    rw [Table.get?_modify, if_neg h]

/-- Evaluation after the turns of the slots below one. -/
def turn (e : Engine δ) (mask caused : Triggers) (now : Now) (slot : Nat) : Progress δ :=
  (List.range slot).foldl (evaluateSlot mask caused now) ⟨e, [], []⟩

theorem evaluate_eq_turn (e : Engine δ) (mask caused : Triggers) (now : Now) :
    e.evaluate mask caused now = e.turn mask caused now e.table.slots.length := rfl

theorem turn_succ (e : Engine δ) (mask caused : Triggers) (now : Now) (slot : Nat) :
    e.turn mask caused now (slot + 1) =
      evaluateSlot mask caused now (e.turn mask caused now slot) slot := by
  unfold turn
  rw [List.range_succ, List.foldl_append, List.foldl_cons, List.foldl_nil]

/-- Until its turn a slot holds what it held when evaluation began. -/
theorem turn_get?_of_le {turns : Nat} (h : turns ≤ slot) :
    (e.turn mask caused now turns).engine.table.get? slot = e.table.get? slot := by
  induction turns with
  | zero => rfl
  | succ turns ih =>
    rw [turn_succ, evaluateSlot_get?_of_ne (by omega)]
    exact ih (by omega)

/-- After its turn a slot keeps what its turn left. -/
theorem turn_get?_of_lt {turns : Nat} (h : slot < turns) :
    (e.turn mask caused now turns).engine.table.get? slot =
      (e.turn mask caused now (slot + 1)).engine.table.get? slot := by
  induction turns with
  | zero => omega
  | succ turns ih =>
    rcases Nat.lt_or_eq_of_le (Nat.le_of_lt_succ h) with hlt | rfl
    · rw [turn_succ, evaluateSlot_get?_of_ne (by omega)]
      exact ih hlt
    · rfl

/-- A turn fills no free slot. -/
theorem turn_get?_of_none (hget : e.table.get? slot = none) (turns : Nat) :
    (e.turn mask caused now turns).engine.table.get? slot = none := by
  induction turns with
  | zero => exact hget
  | succ turns ih =>
    rw [turn_succ]
    by_cases hslot : turns = slot
    · subst hslot
      rcases evaluateSlot_cases mask caused now (e.turn mask caused now turns) turns with
        ⟨hkept, -⟩ | ⟨p, expr, hfilled, -, -⟩
      · rw [hkept]
        exact ih
      · rw [ih] at hfilled
        cases hfilled
    · rw [evaluateSlot_get?_of_ne hslot]
      exact ih

theorem mem_turn_evaluated {turns : Nat} :
    slot ∈ (e.turn mask caused now turns).evaluated ↔
      slot < turns ∧ ∃ p expr, e.table.get? slot = some p ∧ Fires mask caused slot p expr := by
  induction turns with
  | zero => simp [turn]
  | succ turns ih =>
    -- the slot whose turn comes still holds the port that was there when evaluation began
    have hturn : (e.turn mask caused now turns).engine.table.get? turns = e.table.get? turns :=
      turn_get?_of_le (Nat.le_refl turns)
    rw [turn_succ]
    rcases evaluateSlot_cases mask caused now (e.turn mask caused now turns) turns with
      ⟨heq, hidle⟩ | ⟨p, expr, hget, hfires, heq⟩
    · -- the list is as before, and this slot has no port that fires
      rw [heq, ih]
      constructor
      · rintro ⟨hlt, hfires⟩
        exact ⟨by omega, hfires⟩
      · rintro ⟨hlt, p, expr, hget, hfires⟩
        refine ⟨?_, p, expr, hget, hfires⟩
        by_contra hge
        obtain rfl : slot = turns := by omega
        exact hidle p expr (hturn.trans hget) hfires
    · -- this slot joins the list
      rw [heq, List.mem_append, ih, List.mem_singleton]
      constructor
      · rintro (⟨hlt, hbefore⟩ | rfl)
        · exact ⟨by omega, hbefore⟩
        · exact ⟨Nat.lt_succ_self slot, p, expr, hturn ▸ hget, hfires⟩
      · rintro ⟨hlt, hfound⟩
        rcases Nat.lt_or_eq_of_le (Nat.le_of_lt_succ hlt) with hbefore | hnow
        · exact Or.inl ⟨hbefore, hfound⟩
        · exact Or.inr hnow

/-- Only what is evaluated is committed. -/
theorem turn_committed_subset (e : Engine δ) (mask caused : Triggers) (now : Now) (turns : Nat) :
    (e.turn mask caused now turns).committed ⊆ (e.turn mask caused now turns).evaluated := by
  induction turns with
  | zero => exact List.Subset.refl []
  | succ turns ih =>
    rw [turn_succ]
    rcases evaluateSlot_cases mask caused now (e.turn mask caused now turns) turns with
      ⟨heq, -⟩ | ⟨p, expr, -, -, heq⟩
    · rw [heq]
      exact ih
    · rw [heq]
      refine List.append_subset.mpr ⟨List.Subset.trans ih (List.subset_append_left _ _), ?_⟩
      intro slot hslot
      refine List.mem_append_right _ ?_
      split at hslot
      · exact hslot
      · cases hslot

/-! ## A whole tick -/

/-- A tick evaluates the slots whose ports fire when evaluation begins. -/
theorem mem_tick_evaluated :
    slot ∈ (e.tick now).1.evaluated ↔ ∃ p expr, (e.ready now).table.get? slot = some p ∧
      Fires (e.tickMask now) (e.selfCaused now) slot p expr := by
  rw [tick_evaluated, evaluate_eq_turn, mem_turn_evaluated]
  constructor
  · rintro ⟨-, hfires⟩
    exact hfires
  · rintro ⟨p, expr, hget, hfires⟩
    exact ⟨Table.lt_length_of_get? hget, p, expr, hget, hfires⟩

/-- The engine when the turn of a slot comes. -/
def atTurn (e : Engine δ) (now : Now) (slot : Nat) : Engine δ :=
  ((e.ready now).turn (e.tickMask now) (e.selfCaused now) now slot).engine

theorem atTurn_get?_self (hget : (e.ready now).table.get? slot = some p) :
    (e.atTurn now slot).table.get? slot = some p := by
  rw [atTurn, turn_get?_of_le (Nat.le_refl slot), hget]

/-- What a tick leaves in a slot: the port that was ready there, or what its evaluation made of
it. -/
theorem tick_get?_cases (hget : (e.ready now).table.get? slot = some p) :
    ((∀ expr, ¬Fires (e.tickMask now) (e.selfCaused now) slot p expr) ∧
        (e.tick now).2.table.get? slot = some p) ∨
      ∃ expr, Fires (e.tickMask now) (e.selfCaused now) slot p expr ∧
        (e.tick now).2.table.get? slot =
          ((e.atTurn now slot).evaluateLive slot p expr now).2.table.get? slot := by
  have hturn := atTurn_get?_self hget
  have hafter : (e.tick now).2.table.get? slot =
      ((e.ready now).turn (e.tickMask now) (e.selfCaused now) now
        (slot + 1)).engine.table.get? slot := by
    rw [tick_snd, evaluate_eq_turn, turn_get?_of_lt (Table.lt_length_of_get? hget)]
  rw [turn_succ] at hafter
  rcases evaluateSlot_cases (e.tickMask now) (e.selfCaused now) now
      ((e.ready now).turn (e.tickMask now) (e.selfCaused now) now slot) slot with
    ⟨heq, hidle⟩ | ⟨q, expr, hq, hfires, heq⟩
  · refine Or.inl ⟨fun expr => hidle p expr hturn, ?_⟩
    rw [hafter, heq]
    exact hturn
  · obtain rfl : p = q := Option.some.inj (hturn.symm.trans hq)
    refine Or.inr ⟨expr, hfires, ?_⟩
    rw [hafter, heq]
    rfl

/-- A tick fills no free slot. -/
theorem tick_get?_of_none (hget : e.table.get? slot = none) :
    (e.tick now).2.table.get? slot = none := by
  rw [tick_snd, evaluate_eq_turn]
  apply turn_get?_of_none
  rw [ready_get?, hget, Option.map_none]

/-- At each turn a slot holds what it held when evaluation began, or what the tick leaves in it. -/
theorem atTurn_get? (hget : (e.ready now).table.get? slot = some p) (turns : Nat) :
    (e.atTurn now turns).table.get? slot = some p ∨
      (e.atTurn now turns).table.get? slot = (e.tick now).2.table.get? slot := by
  rw [tick_snd, evaluate_eq_turn, atTurn]
  rcases Nat.lt_or_ge slot turns with hlt | hge
  · refine Or.inr ?_
    rw [turn_get?_of_lt hlt, turn_get?_of_lt (Table.lt_length_of_get? hget)]
  · refine Or.inl ?_
    rw [turn_get?_of_le hge, hget]

/-- Evaluation changes ports and queues notifications, and nothing else of the engine. -/
theorem turn_frame (e : Engine δ) (mask caused : Triggers) (now : Now) (turns : Nat) :
    ∃ table notifications, (e.turn mask caused now turns).engine =
      { e with table, notifications } ∧ table.slots.length = e.table.slots.length := by
  induction turns with
  | zero => exact ⟨e.table, e.notifications, rfl, rfl⟩
  | succ turns ih =>
    rcases ih with ⟨table, notifications, hframe, hlength⟩
    rw [turn_succ]
    rcases evaluateSlot_cases mask caused now (e.turn mask caused now turns) turns with
      ⟨heq, -⟩ | ⟨p, expr, -, -, heq⟩
    · exact ⟨table, notifications, by rw [heq, hframe], hlength⟩
    · obtain ⟨q, queued, hlive⟩ :=
        evaluateLive_frame (e.turn mask caused now turns).engine turns p expr now
      refine ⟨table.modify turns fun _ => q, queued, ?_, ?_⟩
      · rw [heq]
        show (evaluateLive _ turns p expr now).2 = _
        rw [hlive, hframe]
        rfl
      · rw [Table.length_modify, hlength]

/-- A tick leaves nothing forced. -/
@[simp]
theorem tick_forced (e : Engine δ) (now : Now) : (e.tick now).2.forced = Triggers.none := by
  rcases turn_frame (e.ready now) (e.tickMask now)
    (e.selfCaused now) now (e.ready now).table.slots.length with ⟨table, notifications, hframe, -⟩
  rw [tick_snd, evaluate_eq_turn, hframe]
  rfl

theorem tick_length (e : Engine δ) (now : Now) :
    (e.tick now).2.table.slots.length = e.table.slots.length := by
  rcases turn_frame (e.ready now) (e.tickMask now)
    (e.selfCaused now) now (e.ready now).table.slots.length with
    ⟨table, notifications, hframe, hlength⟩
  rw [tick_snd, evaluate_eq_turn, hframe]
  exact hlength.trans (ready_length e now)

end Engine

end PortLogic
