import PortLogic.Number.Power
import PortLogic.Proofs.Chains
import PortLogic.Proofs.Dependency
import PortLogic.Proofs.Evaluation
import PortLogic.Proofs.Values

/-!
# PortLogic.Proofs.Settling — changes do not go round for ever

Where neither the time nor a memory nor an input acts on the expressions (`Isolated`), a port can
change in a tick for one reason only: a port that it references has changed, in the tick before or
earlier in the same one. Evaluating it again because it has changed itself yields the same value. So
a port that changes in the tick of number `n` heads a chain of `n` references (`Spreading`). There
are no loops of references, and a chain is no longer than there are ports with a live expression:
once there were more ticks than that, nothing changes any more (`Reachable.settles`).
-/

namespace PortLogic

open Table

/-! ## Ports -/

namespace Port

variable {δ : Type} {p : Port δ} {now : Now}

/-- A value of the port compares equal to itself. -/
theorem Admits.beq_self {v : Value} (h : p.Admits v) : (v == v) = true := by
  cases v with
  | none => rfl
  | some x => exact (Value.Alike.refl (some x)).beq (fit_isFinite (h x rfl))

/-- A change that has been detected is no change any more. -/
theorem acknowledge_hasChanged (h : p.Fitting) : p.acknowledge.hasChanged = false := by
  unfold acknowledge
  split
  · unfold hasChanged
    simp only
    rw [h.value.beq_self, Bool.not_true, Bool.and_false]
  · next hkept => simpa using hkept

variable [Power]

/-- Without a driver a sample leaves the port as it is, but for the time of it. -/
theorem sample_of_undriven [Driver δ]
    (h : p.enabled = true → p.output = false → p.driver = none) (now : Now) :
    ∃ sampledAt, p.sample now = ⟨{ p with sampledAt }, false, false⟩ := by
  unfold sample
  split
  · next hdue =>
    unfold isDue at hdue
    simp only [Bool.and_eq_true, Bool.not_eq_true'] at hdue
    rw [h hdue.1.1 hdue.1.2]
    exact ⟨some now.uptime, rfl⟩
  · exact ⟨p.sampledAt, rfl⟩

end Port

namespace Table

variable [Power] {δ : Type}

/-- The value of a port is the one that its expression has on a source that shows every port without
a new change as it is. -/
def Fresh (t : Table δ) (p : Port δ) (expr : Expr) : Prop :=
  ∃ source : Source,
    (∀ id ∈ expr.ports, (∀ q, t.find? id = some q → q.hasChanged = false) →
      source id = t.source id) ∧
    ∀ now, (expr.eval ⟨source, now⟩).value.bind p.normalize = p.value

end Table

namespace Engine

section

variable {δ : Type} [Driver δ] {e e' : Engine δ} {t : Table δ} {now : Now} {slot turns n : Nat}
  {p q : Port δ} {expr : Expr} {id : String}

/-! ## One tick -/

variable [Power]

/-- A tick evaluates a port for a reason: something that triggers the port acts, and the change of
the port, if any, is not one that its own expression made and reads. -/
theorem exists_trigger_of_evaluated (hget : e.table.get? slot = some p)
    (h : slot ∈ (e.tick now).1.evaluated) :
    p.isLive = true ∧ ∃ trigger, e.ActsOn now trigger ∧
      (trigger = slot ∨ p.triggers.contains trigger = true) ∧ ¬HeldBack slot p := by
  rcases mem_tick_evaluated.mp h with ⟨r, expr, hr, hfires⟩
  have hready := ready_get?_of_some hget now
  obtain rfl := Option.some.inj (hready.symm.trans hr)
  have hkept := p.sample_kept now
  have houtput : p.output = true := by
    rw [← hkept.output, ← Port.acknowledge_congr Port.output fun _ _ => rfl]
    exact hfires.output
  have henabled : p.enabled = true := by
    rw [← hkept.enabled, ← Port.acknowledge_congr Port.enabled fun _ _ => rfl]
    exact hfires.enabled
  have hlive : p.live = some expr := by
    rw [← hkept.live, ← Port.acknowledge_congr Port.live fun _ _ => rfl]
    exact hfires.live
  have hsome : p.live.isSome = true := by
    rw [hlive]
    rfl
  have htriggered := (mem_evaluated_iff_isTriggered hget henabled houtput hsome).mp h
  have hmeets : (e.tickMask now).meets (p.triggers ∪ Triggers.only slot) = true :=
    (Bool.and_eq_true_iff.mp htriggered).2
  rcases (Triggers.meets_iff _ _).mp hmeets with ⟨trigger, hacts, hmem⟩
  rw [contains_tickMask] at hacts
  rw [Triggers.contains_union, Triggers.contains_only, Bool.or_eq_true, decide_eq_true_iff] at hmem
  have htrigger : trigger = slot ∨ p.triggers.contains trigger = true := hmem.symm.imp Eq.symm id
  refine ⟨Port.isLive_iff.mpr ⟨henabled, houtput, hsome⟩, trigger, hacts, htrigger, ?_⟩
  exact (isTriggered_iff hget houtput hacts htrigger).mp htriggered

/-- Neither the time nor a memory nor an input acts on the live expressions. -/
structure Isolated (e : Engine δ) : Prop where
  plain : ∀ {slot p expr}, e.table.get? slot = some p → p.live = some expr → expr.IsPlain
  inputs : ∀ {slot p}, e.table.get? slot = some p → p.enabled = true → p.output = false →
    p.driver = none

/-- A tick has given a port a new value of its expression. -/
structure Renewed (e : Engine δ) (now : Now) (slot : Nat) (p q : Port δ) (expr : Expr) : Prop where
  evaluated : slot ∈ (e.tick now).1.evaluated
  live : p.live = some expr
  changed : q.hasChanged = true
  reason : q.reason = .expression
  isNew : (p.value == q.value) = false
  value : (expr.eval ⟨(e.atTurn now slot).table.source, now⟩).value.bind p.normalize = q.value

/-- A tick has left a port without a change. -/
structure Held (p q : Port δ) : Prop where
  unchanged : q.hasChanged = false
  lastRead : q.lastRead = p.lastRead

theorem Isolated.tick_port (h : e.Isolated) (hreach : e.Reachable)
    (hget : e.table.get? slot = some p) (now : Now) :
    ∃ q, (e.tick now).2.table.get? slot = some q ∧ q.live = p.live ∧
      (p.output = false → q.driver = p.driver) ∧
      (Held p q ∨ ∃ expr, Renewed e now slot p q expr) := by
  rcases Port.sample_of_undriven (h.inputs hget) now with ⟨sampledAt, hsample⟩
  have hready := ready_get?_of_some hget now
  have hseen := Port.acknowledge_seen (p.sample now).port
  have hack := Port.acknowledge_hasChanged ((p.sample_moves now).fitting (hreach.fitting hget))
  rcases Port.acknowledge_eq { p with sampledAt } with ⟨reason, detected, heq⟩
  rw [hsample, heq] at hready hseen hack
  rcases tick_get?_cases hready with ⟨-, hafter⟩ | ⟨expr, hfires, hafter⟩
  · exact ⟨_, hafter, rfl, fun _ => rfl, Or.inl ⟨hack, rfl⟩⟩
  have hlive : p.live = some expr := hfires.live
  have houtput : p.output = true := hfires.output
  have hevaluated := mem_tick_evaluated.mpr ⟨_, expr, hready, hfires⟩
  have hself := atTurn_get?_self hready
  have hnext := Expr.eval_next (h.plain hget hlive) ⟨(e.atTurn now slot).table.source, now⟩
  have hsame : some (expr.eval ⟨(e.atTurn now slot).table.source, now⟩).next = p.live := by
    rw [hnext, hlive]
  have hnot {driver : Option δ} (hinput : p.output = false) : driver = p.driver := by
    rw [houtput] at hinput
    cases hinput
  rcases evaluateLive_cases (e.atTurn now slot) slot _ expr now with
    ⟨heval, -⟩ | ⟨x, writeTransform, driver, hx, hnew, -, ⟨-, heval⟩ | ⟨-, heval⟩⟩
  · rw [heval] at hafter
    exact ⟨_, hafter.trans (modify_get?_self hself _), hsame, hnot, Or.inl ⟨hack, rfl⟩⟩
  · rw [heval] at hafter
    exact ⟨_, hafter.trans (modify_get?_self hself _), hsame, hnot, Or.inl ⟨hack, rfl⟩⟩
  · rw [heval] at hafter
    refine ⟨_, hafter.trans (modify_get?_self hself _), hsame, hnot, Or.inr ⟨expr, ?_⟩⟩
    refine ⟨hevaluated, hlive, ?_, rfl, hnew, hx⟩
    -- the new value differs from the old one, and so from the one detected before
    rcases Option.bind_eq_some_iff.mp hx with ⟨y, -, hfit⟩
    have hdiffers := Port.not_seen_of_new hseen hfires.enabled hfit hnew
    show (p.enabled && !(some x == detected)) = true
    rw [show p.enabled = true from hfires.enabled, Bool.true_and, Bool.not_eq_true',
      ← Bool.not_eq_true]
    exact fun hequal => hdiffers (Value.alike_of_beq hequal)

theorem Isolated.tick (h : e.Isolated) (hreach : e.Reachable) (now : Now) :
    (e.tick now).2.Isolated := by
  have hport {slot : Nat} {q : Port δ} (hq : (e.tick now).2.table.get? slot = some q) :
      ∃ p, e.table.get? slot = some p ∧ q.wiring = p.wiring ∧ q.live = p.live ∧
        (p.output = false → q.driver = p.driver) := by
    rcases (tick_sameWiring e now).get? hq with ⟨p, hget, hwiring⟩
    rcases h.tick_port hreach hget now with ⟨q', hq', hlive, hdriver, -⟩
    obtain rfl := Option.some.inj (hq.symm.trans hq')
    exact ⟨p, hget, hwiring, hlive, hdriver⟩
  constructor
  · intro slot q expr hq hexpr
    rcases hport hq with ⟨p, hget, -, hlive, -⟩
    exact h.plain hget (hlive.symm.trans hexpr)
  · intro slot q hq henabled houtput
    rcases hport hq with ⟨p, hget, hwiring, -, hdriver⟩
    have hinput : p.output = false := (congrArg Port.Wiring.output hwiring).symm.trans houtput
    have hon : p.enabled = true := (congrArg Port.Wiring.enabled hwiring).symm.trans henabled
    exact (hdriver hinput).trans (h.inputs hget hon hinput)

/-- A reference reads at a turn of a tick what it read before, unless the tick has changed the port
by then. -/
theorem Isolated.atTurn_source (h : e.Isolated) (hreach : e.Reachable)
    (hslot : e.table.slotOf? id = some slot) (hget : e.table.get? slot = some p)
    (hkept : turns ≤ slot ∨
      ∀ q, (e.tick now).2.table.get? slot = some q → q.hasChanged = false) :
    (e.atTurn now turns).table.source id = e.table.source id := by
  have hready := ready_get?_of_some hget now
  have hread : (p.sample now).port.acknowledge.lastRead = p.lastRead := by
    rcases Port.sample_of_undriven (h.inputs hget) now with ⟨sampledAt, hsample⟩
    rw [Port.acknowledge_congr Port.lastRead fun _ _ => rfl, hsample]
  have hon : (p.sample now).port.acknowledge.enabled = p.enabled := by
    rw [Port.acknowledge_congr Port.enabled fun _ _ => rfl, (p.sample_kept now).enabled]
  obtain ⟨r, hr, henabled, hlastRead⟩ : ∃ r, (e.atTurn now turns).table.get? slot = some r ∧
      r.enabled = p.enabled ∧ r.lastRead = p.lastRead := by
    rcases hkept with hle | hunchanged
    · exact ⟨_, (turn_get?_of_le hle).trans hready, hon, hread⟩
    rcases atTurn_get? hready turns with hbefore | hafter
    · exact ⟨_, hbefore, hon, hread⟩
    rcases h.tick_port hreach hget now with ⟨q, hq, -, -, hheld | ⟨expr, hrenewed⟩⟩
    · rcases (tick_sameWiring e now).get? hq with ⟨p', hp', hwiring⟩
      obtain rfl := Option.some.inj (hget.symm.trans hp')
      exact ⟨q, hafter.trans hq, congrArg Port.Wiring.enabled hwiring, hheld.lastRead⟩
    · cases (hunchanged q hq).symm.trans hrenewed.changed
  rw [source_of_slotOf? ((atTurn_slotOf? e now turns) ▸ hslot) hr, source_of_slotOf? hslot hget,
    henabled, hlastRead]

/-- A new value stays that of the expression as long as no port that it references changes. -/
theorem Isolated.tick_fresh (h : e.Isolated) (hreach : e.Reachable)
    (hget : e.table.get? slot = some p) (hafter : (e.tick now).2.table.get? slot = some q)
    (hrenewed : Renewed e now slot p q expr) : Fresh (e.tick now).2.table q expr := by
  have hslots := (tick_sameWiring e now).slotOf?
  have hlast : (e.tick now).2 = e.atTurn now (e.ready now).table.slots.length := rfl
  refine ⟨(e.atTurn now slot).table.source, ?_, ?_⟩
  · intro id _ hunchanged
    cases hslot : e.table.slotOf? id with
    | none =>
      rw [source_of_unknown ((atTurn_slotOf? e now slot) ▸ hslot),
        source_of_unknown (hslots ▸ hslot)]
    | some other =>
      rcases slotOf?_eq_some hslot with ⟨r, hr, -⟩
      have hkept (q : Port δ) (hq : (e.tick now).2.table.get? other = some q) :
          q.hasChanged = false := by
        apply hunchanged
        rw [Table.find?, hslots, hslot, Option.bind_some, hq]
      have hread {turns : Nat} : (e.atTurn now turns).table.source id = e.table.source id :=
        h.atTurn_source hreach hslot hr (Or.inr hkept)
      rw [hread, hlast, hread]
  · intro clock
    rcases (tick_sameWiring e now).get? hafter with ⟨p', hp', hwiring⟩
    obtain rfl := Option.some.inj (hget.symm.trans hp')
    have hclock : (expr.eval ⟨(e.atTurn now slot).table.source, clock⟩).value =
        (expr.eval ⟨(e.atTurn now slot).table.source, now⟩).value :=
      Expr.eval_congr (h.plain hget hrenewed.live) fun _ _ => rfl
    rw [hclock, Port.normalize_of_wiring hwiring]
    exact hrenewed.value

/-! ## Causes -/

/-- No clock triggers a plain expression. -/
theorem Isolated.trigger_lt (h : e.Isolated) (hreach : e.Reachable)
    (hget : e.table.get? slot = some p) (hlive : p.live.isSome = true) {trigger : Nat}
    (htrigger : trigger = slot ∨ p.triggers.contains trigger = true) :
    trigger < Triggers.maxPorts := by
  have hwired := hreach.wired
  rcases htrigger with rfl | htrigger
  · exact (lt_length_of_get? hget).trans_le hwired.small
  rcases Option.isSome_iff_exists.mp hlive with ⟨expr, hexpr⟩
  have hplain := h.plain hget hexpr
  rw [hwired.triggers hget hexpr, Expr.contains_triggers] at htrigger
  rcases htrigger with ⟨id, -, hslot⟩ | ⟨hreads, -⟩ | ⟨hreads, -⟩
  · rcases slotOf?_eq_some hslot with ⟨q, hq, -⟩
    exact (lt_length_of_get? hq).trans_le hwired.small
  · rcases List.any_eq_true.mp hreads with ⟨f, hf, hsecond⟩
    rw [(hplain f hf).2.1] at hsecond
    cases hsecond
  · rcases List.any_eq_true.mp hreads with ⟨f, hf, hmillisecond⟩
    rw [(hplain f hf).2.2] at hmillisecond
    cases hmillisecond

/-- When nothing is forced, a port is evaluated because of a change of its own or of a port that it
references. -/
theorem Isolated.exists_change (h : e.Isolated) (hreach : e.Reachable)
    (hforced : e.forced = Triggers.none) (hget : e.table.get? slot = some p)
    (hevaluated : slot ∈ (e.tick now).1.evaluated) :
    p.isLive = true ∧ ¬HeldBack slot p ∧ ∃ other r, e.table.get? other = some r ∧
      r.hasChanged = true ∧ (other = slot ∨ p.triggers.contains other = true) := by
  rcases exists_trigger_of_evaluated hget hevaluated with
    ⟨hlive, trigger, hacts, htrigger, hnot⟩
  refine ⟨hlive, hnot, ?_⟩
  have hlt := h.trigger_lt hreach hget (Port.isLive_iff.mp hlive).2.2 htrigger
  cases hacts with
  | millisecond => exact absurd hlt (by decide)
  | second _ => exact absurd hlt (by decide)
  | @change other r hr hchanged =>
    rw [sampled_get?] at hr
    rcases Option.map_eq_some_iff.mp hr with ⟨r', hr', rfl⟩
    rcases Port.sample_of_undriven (h.inputs hr') now with ⟨sampledAt, hsample⟩
    rw [hsample] at hchanged
    exact ⟨trigger, r', hr', hchanged, htrigger⟩
  | forced hforces =>
    rw [hforced, Triggers.contains_none] at hforces
    cases hforces

/-! ## Runs of ticks -/

/-- Every change after a number of ticks heads a chain of as many references, and is due to the
expression of the port. -/
structure Spreading (t : Table δ) (n : Nat) (e : Engine δ) : Prop where
  forced : e.forced = Triggers.none
  fresh : ∀ {slot p}, e.table.get? slot = some p → p.hasChanged = true →
    p.reason = .expression ∧ ∃ expr, p.live = some expr ∧ Fresh e.table p expr
  deep : ∀ {slot p}, e.table.get? slot = some p → p.hasChanged = true →
    ∃ m, n ≤ m ∧ t.Deep m slot

theorem Isolated.tick_spreading (h : e.Isolated) (hreach : e.Reachable) {now : Now}
    (hdeep : ∀ slot p q expr, e.table.get? slot = some p →
      (e.tick now).2.table.get? slot = some q → Renewed e now slot p q expr →
      ∃ m, n ≤ m ∧ t.Deep m slot) : Spreading t n (e.tick now).2 := by
  have hrenewed {slot : Nat} {q : Port δ} (hq : (e.tick now).2.table.get? slot = some q)
      (hchanged : q.hasChanged = true) :
      ∃ p expr, e.table.get? slot = some p ∧ q.live = p.live ∧ Renewed e now slot p q expr := by
    rcases (tick_sameWiring e now).get? hq with ⟨p, hget, -⟩
    rcases h.tick_port hreach hget now with ⟨q', hq', hlive, -, hheld | ⟨expr, hrenewed⟩⟩
    · obtain rfl := Option.some.inj (hq.symm.trans hq')
      rw [hheld.unchanged] at hchanged
      cases hchanged
    · obtain rfl := Option.some.inj (hq.symm.trans hq')
      exact ⟨p, expr, hget, hlive, hrenewed⟩
  refine ⟨tick_forced e now, ?_, ?_⟩
  · intro slot q hq hchanged
    rcases hrenewed hq hchanged with ⟨p, expr, hget, hlive, hrenewed⟩
    exact ⟨hrenewed.reason, expr, hlive.trans hrenewed.live, h.tick_fresh hreach hget hq hrenewed⟩
  · intro slot q hq hchanged
    rcases hrenewed hq hchanged with ⟨p, expr, hget, -, hrenewed⟩
    exact hdeep slot p q expr hget hq hrenewed

/-- A port with the value of its expression on a source gets another one from another source
alone. -/
theorem Renewed.exists_differing (hrenewed : Renewed e now slot p q expr) (h : e.Isolated)
    (hreach : e.Reachable) (hget : e.table.get? slot = some p) {source : Source}
    (hvalue : (expr.eval ⟨source, now⟩).value.bind p.normalize = p.value) :
    ∃ id ∈ expr.ports, (e.atTurn now slot).table.source id ≠ source id := by
  by_contra hnone
  have hreads : ∀ id ∈ expr.ports, (e.atTurn now slot).table.source id = source id := by
    intro id hid
    by_contra hne
    exact hnone ⟨id, hid, hne⟩
  have heval : (expr.eval ⟨(e.atTurn now slot).table.source, now⟩).value =
      (expr.eval ⟨source, now⟩).value :=
    Expr.eval_congr (h.plain hget hrenewed.live) hreads
  have hsame : q.value = p.value := by
    rw [← hrenewed.value, heval, hvalue]
  have hnew := hrenewed.isNew
  rw [hsame, (hreach.fitting hget).value.beq_self] at hnew
  cases hnew

/-- A fresh value gives way only to a change of a port that it was computed from, either before the
tick or at an earlier turn of it. -/
theorem Renewed.exists_cause (hrenewed : Renewed e now slot p q expr) (h : e.Isolated)
    (hreach : e.Reachable) (hget : e.table.get? slot = some p) (hfresh : Fresh e.table p expr) :
    ∃ other r, e.table.get? other = some r ∧ r.id ∈ expr.ports ∧
      (r.hasChanged = true ∨ other < slot ∧ ∃ s expr',
        (e.tick now).2.table.get? other = some s ∧ Renewed e now other r s expr') := by
  rcases hfresh with ⟨source, hsource, hvalue⟩
  rcases hrenewed.exists_differing h hreach hget (hvalue now) with ⟨id, hid, hdiffers⟩
  cases hslot : e.table.slotOf? id with
  | none =>
    have hunknown (r : Port δ) (hr : e.table.find? id = some r) : r.hasChanged = false := by
      rw [find?_eq_none.mpr hslot] at hr
      cases hr
    refine absurd ?_ hdiffers
    rw [source_of_unknown ((atTurn_slotOf? e now slot) ▸ hslot), hsource id hid hunknown,
      source_of_unknown hslot]
  | some other =>
    rcases slotOf?_eq_some hslot with ⟨r, hr, rfl⟩
    refine ⟨other, r, hr, hid, ?_⟩
    cases hrchanged : r.hasChanged with
    | true => exact Or.inl rfl
    | false =>
      have hunchanged (r' : Port δ) (hr' : e.table.find? r.id = some r') :
          r'.hasChanged = false := by
        rw [Table.find?, hslot, Option.bind_some, hr] at hr'
        rwa [← Option.some.inj hr']
      -- the reference reads what it read unless the port changes at an earlier turn
      have hread (hkept : slot ≤ other ∨ ∀ q,
          (e.tick now).2.table.get? other = some q → q.hasChanged = false) : False := by
        refine hdiffers ?_
        rw [h.atTurn_source hreach hslot hr hkept, hsource r.id hid hunchanged]
      rcases h.tick_port hreach hr now with ⟨s, hs, -, -, hheld | ⟨expr', hagain⟩⟩
      · refine (hread (Or.inr ?_)).elim
        intro s' hs'
        rw [← Option.some.inj (hs.symm.trans hs')]
        exact hheld.unchanged
      · refine Or.inr ⟨?_, s, expr', hs, hagain⟩
        by_contra hge
        exact hread (Or.inl (Nat.le_of_not_lt hge))

/-- In a further tick a port changes only when a port that it references has changed, before the
tick or at an earlier turn of it. -/
theorem Spreading.deep_of_renewed (hs : Spreading t n e) (h : e.Isolated) (hreach : e.Reachable)
    (hwiring : t.SameWiring e.table) (slot : Nat) (p q : Port δ) (expr : Expr)
    (hget : e.table.get? slot = some p) (hafter : (e.tick now).2.table.get? slot = some q)
    (hrenewed : Renewed e now slot p q expr) : ∃ m, n + 1 ≤ m ∧ t.Deep m slot := by
  induction slot using Nat.strong_induction_on generalizing p q expr with
  | _ slot ih =>
  rcases h.exists_change hreach hs.forced hget hrenewed.evaluated with
    ⟨hlive, hnot, other, r, hr, hchanged, hcause⟩
  have hmem : slot ∈ t.slotsWhere Port.isLive := hwiring.mem_slotsWhere_isLive hget hlive
  have hsome : p.live.isSome = true := (Port.isLive_iff.mp hlive).2.2
  have hchain {other m : Nat} {r : Port δ} (hne : slot ≠ other) (hr : e.table.get? other = some r)
      (htrigger : p.triggers.contains other = true) (hm : n ≤ m) (hdeep : t.Deep m other) :
      ∃ m, n + 1 ≤ m ∧ t.Deep m slot := by
    have hdep : e.table.DependsOn slot other := ⟨hne, ⟨r, hr⟩, p, hget, hsome, htrigger⟩
    exact ⟨m + 1, Nat.succ_le_succ hm, Deep.step hmem (hdep.of_sameWiring hwiring) hdeep⟩
  by_cases hown : other = slot
  · -- the port was evaluated again because it had changed itself
    subst hown
    obtain rfl := Option.some.inj (hget.symm.trans hr)
    rcases hs.fresh hget hchanged with ⟨hreason, expr', hexpr', hfresh⟩
    obtain rfl : expr' = expr := Option.some.inj (hexpr'.symm.trans hrenewed.live)
    rcases hrenewed.exists_cause h hreach hget hfresh with ⟨further, r, hr, hid, hchange⟩
    have htrigger : p.triggers.contains further = true :=
      (hreach.wired.contains_triggers hget hexpr' hr).mpr hid
    have hne : other ≠ further := by
      rintro rfl
      exact hnot ⟨hchanged, hreason, htrigger⟩
    rcases hchange with hrchanged | ⟨hearlier, s, expr, hsafter, hagain⟩
    · rcases hs.deep hr hrchanged with ⟨m, hm, hdeep⟩
      exact hchain hne hr htrigger hm hdeep
    · rcases ih further hearlier r s expr hr hsafter hagain with ⟨m, hm, hdeep⟩
      exact hchain hne hr htrigger (Nat.le_of_succ_le hm) hdeep
  · rcases hs.deep hr hchanged with ⟨m, hm, hdeep⟩
    exact hchain (Ne.symm hown) hr (hcause.resolve_left hown) hm hdeep

/-- Once a chain would have to be longer than there are live slots, a tick evaluates nothing. -/
theorem Spreading.evaluated_eq_nil (hs : Spreading t n e) (h : e.Isolated) (hreach : e.Reachable)
    (hwired : t.Wired) (hlong : (t.slotsWhere Port.isLive).length < n) (now : Now) :
    (e.tick now).1.evaluated = [] := by
  rw [List.eq_nil_iff_forall_not_mem]
  intro slot hevaluated
  rcases mem_tick_evaluated.mp hevaluated with ⟨q, -, hq, -⟩
  rw [ready_get?] at hq
  rcases Option.map_eq_some_iff.mp hq with ⟨p, hget, -⟩
  rcases h.exists_change hreach hs.forced hget hevaluated with ⟨-, -, other, r, hr, hchanged, -⟩
  rcases hs.deep hr hchanged with ⟨m, hm, hdeep⟩
  have hle := hdeep.le hwired
  omega

/-- What evaluates nothing commits nothing either: no input has a driver to sample. -/
theorem Isolated.committed_eq_nil (h : e.Isolated) (hquiet : (e.tick now).1.evaluated = []) :
    (e.tick now).1.committed = [] := by
  have hsampled : ((e.clock now).2.sample now).2.1 = [] := by
    show ((e.table.entries.map fun entry => (entry.1, entry.2.sample now)).filter
      fun sampled => sampled.2.changed).map (·.1) = []
    rw [List.map_eq_nil_iff, List.filter_eq_nil_iff]
    intro entry hentry
    rcases List.mem_map.mp hentry with ⟨⟨slot, p⟩, hmem, rfl⟩
    rcases Port.sample_of_undriven (h.inputs (mem_entries.mp hmem)) now with ⟨sampledAt, hsample⟩
    simp only
    rw [hsample]
    exact Bool.false_ne_true
  have hevaluated : ((e.ready now).evaluate (e.tickMask now) (e.selfCaused now) now).committed =
      [] := by
    have hsubset := turn_committed_subset (e.ready now) (e.tickMask now) (e.selfCaused now) now
      (e.ready now).table.slots.length
    rw [← evaluate_eq_turn, ← tick_evaluated, hquiet] at hsubset
    exact List.subset_nil.mp hsubset
  rw [tick_committed, hsampled, hevaluated]
  rfl

/-! ### The world acts on drivers -/

omit [Driver δ] in
omit [Power] in
theorem adjustDriver_get? (e : Engine δ) (id : String) (f : δ → δ) :
    ∃ adjust : Nat → Option δ → Option δ, (∀ slot, adjust slot none = none) ∧
      ∀ slot, (e.adjustDriver id f).table.get? slot =
        (e.table.get? slot).map fun p => { p with driver := adjust slot p.driver } := by
  unfold adjustDriver
  split
  · exact ⟨fun _ driver => driver, fun _ => rfl, fun slot => Option.map_id'.symm⟩
  · next adjusted _ =>
    refine ⟨fun slot driver => if adjusted = slot then driver.map f else driver, ?_, ?_⟩
    · intro slot
      simp only
      split <;> rfl
    · intro slot
      show (e.table.modify adjusted fun p => { p with driver := p.driver.map f }).get? slot = _
      rw [get?_modify]
      by_cases hslot : adjusted = slot
      · simp only [if_pos hslot]
      · simp only [if_neg hslot]
        exact Option.map_id'.symm

omit [Driver δ] in
omit [Power] in
theorem Isolated.adjustDriver (h : e.Isolated) (id : String) (f : δ → δ) :
    (e.adjustDriver id f).Isolated := by
  rcases adjustDriver_get? e id f with ⟨adjust, hnone, hget⟩
  constructor
  · intro slot q expr hq hexpr
    rw [hget] at hq
    rcases Option.map_eq_some_iff.mp hq with ⟨p, hp, rfl⟩
    exact h.plain hp hexpr
  · intro slot q hq henabled houtput
    rw [hget] at hq
    rcases Option.map_eq_some_iff.mp hq with ⟨p, hp, rfl⟩
    show adjust slot p.driver = none
    rw [h.inputs hp henabled houtput, hnone]

omit [Driver δ] in
theorem Spreading.adjustDriver (hs : Spreading t n e) (id : String) (f : δ → δ) :
    Spreading t n (e.adjustDriver id f) := by
  rcases adjustDriver_get? e id f with ⟨adjust, -, hget⟩
  have hslots := (adjustDriver_sameWiring e id f).slotOf?
  have hfind (other : String) : ∃ slot, (e.adjustDriver id f).table.find? other =
      (e.table.find? other).map fun p => { p with driver := adjust slot p.driver } := by
    unfold Table.find?
    rw [hslots]
    cases e.table.slotOf? other with
    | none => exact ⟨0, rfl⟩
    | some slot => exact ⟨slot, hget slot⟩
  have hsource : (e.adjustDriver id f).table.source = e.table.source := by
    funext other
    unfold Table.source
    rcases hfind other with ⟨slot, heq⟩
    rw [heq]
    cases e.table.find? other with
    | none => rfl
    | some p => rfl
  refine ⟨?_, ?_, ?_⟩
  · rw [← hs.forced]
    unfold Engine.adjustDriver
    split <;> rfl
  · intro slot q hq hchanged
    rw [hget] at hq
    rcases Option.map_eq_some_iff.mp hq with ⟨p, hp, rfl⟩
    rcases hs.fresh hp hchanged with ⟨hreason, expr, hlive, source, hreads, hvalue⟩
    refine ⟨hreason, expr, hlive, source, ?_, hvalue⟩
    intro other hmem hunchanged
    rw [hsource]
    refine hreads other hmem ?_
    intro r hr
    rcases hfind other with ⟨slot, heq⟩
    rw [hr] at heq
    exact hunchanged { r with driver := adjust slot r.driver } heq
  · intro slot q hq hchanged
    rw [hget] at hq
    rcases Option.map_eq_some_iff.mp hq with ⟨p, hp, rfl⟩
    exact hs.deep hp hchanged

/-! ### Any number of ticks -/

/-- A number of ticks leads from one engine to another, with nothing between them but what the world
does to the drivers. -/
inductive Unattended (e : Engine δ) : Nat → Engine δ → Prop where
  | start : Unattended e 0 e
  | tick {n : Nat} {e' : Engine δ} (h : Unattended e n e') (now : Now) :
      Unattended e (n + 1) (e'.tick now).2
  | adjustDriver {n : Nat} {e' : Engine δ} (h : Unattended e n e') (id : String) (f : δ → δ) :
      Unattended e n (e'.adjustDriver id f)

/-- What holds along a run of ticks; the changes are accounted for from the first tick on. -/
structure Settling (e : Engine δ) (n : Nat) (e' : Engine δ) : Prop where
  reachable : e'.Reachable
  isolated : e'.Isolated
  wiring : e.table.SameWiring e'.table
  spreading : 0 < n → Spreading e.table n e'

theorem Unattended.settling (h : e.Reachable) (hisolated : e.Isolated)
    (hrun : e.Unattended n e') : Settling e n e' := by
  induction hrun with
  | start =>
    refine ⟨h, hisolated, SameWiring.refl _, ?_⟩
    intro hpos
    cases hpos
  | @tick n e' _ now ih =>
    have hsame := tick_sameWiring e' now
    refine ⟨ih.reachable.run [.tick now], ih.isolated.tick ih.reachable now,
      ih.wiring.trans hsame, ?_⟩
    intro _
    refine ih.isolated.tick_spreading ih.reachable ?_
    intro slot p q expr hget hafter hrenewed
    rcases Nat.eq_zero_or_pos n with rfl | hpos
    · -- whatever the first tick changes is live
      have hlive := (exists_trigger_of_evaluated hget hrenewed.evaluated).1
      exact ⟨1, Nat.le_refl 1, Deep.single (ih.wiring.mem_slotsWhere_isLive hget hlive)⟩
    · exact (ih.spreading hpos).deep_of_renewed ih.isolated ih.reachable ih.wiring slot p q expr
        hget hafter hrenewed
  | adjustDriver _ id f ih =>
    refine ⟨ih.reachable.run [.adjustDriver id f], ih.isolated.adjustDriver id f,
      ih.wiring.trans (adjustDriver_sameWiring _ id f), ?_⟩
    intro hpos
    exact (ih.spreading hpos).adjustDriver id f

/-- When neither the time nor a memory nor an input acts on the expressions, every tick evaluates
and commits nothing once there were more ticks than there are live expressions. -/
theorem Reachable.settles (h : e.Reachable) (hisolated : e.Isolated) (hrun : e.Unattended n e')
    (hlong : (e.table.slotsWhere Port.isLive).length < n) (now : Now) :
    (e'.tick now).1.evaluated = [] ∧ (e'.tick now).1.committed = [] := by
  have hsettling := hrun.settling h hisolated
  have hspreading := hsettling.spreading (Nat.zero_lt_of_lt hlong)
  have hquiet := hspreading.evaluated_eq_nil hsettling.isolated hsettling.reachable h.wired hlong
    now
  exact ⟨hquiet, hsettling.isolated.committed_eq_nil hquiet⟩

end

attribute [local instance] Power.rounded

/-- The ports `b` and `c` follow `a`, each from a slot before the one that it reads. -/
def relaying : Engine Simulated :=
  (start EngineConfig.initial).run [
    .addPort { PortConfig.virtualOutput "c" with expression := "$b" } none,
    .addPort { PortConfig.virtualOutput "b" with expression := "$a" } none,
    .addPort (PortConfig.virtualOutput "a") none,
    .setValue "a" 1]

/-- With two live expressions the third tick still evaluates, and the fourth does not. -/
theorem settles_after_relay :
    let e := relaying.run [.tick ⟨0, none⟩, .tick ⟨100, none⟩]
    (relaying.table.slotsWhere Port.isLive).length = 2 ∧
      (e.tick ⟨200, none⟩).1.evaluated = [0] ∧
      ((e.tick ⟨200, none⟩).2.tick ⟨300, none⟩).1.evaluated = [] ∧
      ((e.tick ⟨200, none⟩).2.tick ⟨300, none⟩).1.committed = [] := by
  have hports : relaying.table.ports.all (fun p => p.output &&
      p.live.all fun expr => decide expr.IsPlain) = true := by
    decide +kernel
  have hlive : (relaying.table.slotsWhere Port.isLive).length = 2 := by
    decide +kernel
  have hisolated : relaying.Isolated := by
    have hport {slot : Nat} {p : Port Simulated} (hget : relaying.table.get? slot = some p) :=
      List.all_eq_true.mp hports p (mem_ports.mpr ⟨slot, hget⟩)
    constructor
    · intro slot p expr hget hexpr
      have hall := (Bool.and_eq_true_iff.mp (hport hget)).2
      rw [hexpr, Option.all_some, decide_eq_true_iff] at hall
      exact hall
    · intro slot p hget _ hinput
      have houtput := (Bool.and_eq_true_iff.mp (hport hget)).1
      rw [hinput] at houtput
      cases houtput
  have hrun := ((Unattended.start.tick ⟨0, none⟩).tick ⟨100, none⟩).tick (e := relaying) ⟨200, none⟩
  have hreachable : relaying.Reachable := (reachable_start _).run _
  have hlong : (relaying.table.slotsWhere Port.isLive).length < 3 := by
    rw [hlive]
    decide
  refine ⟨hlive, by decide +kernel, ?_⟩
  exact Reachable.settles hreachable hisolated hrun hlong ⟨300, none⟩

end Engine

end PortLogic
