import Mathlib.Data.List.Infix
import PortLogic.Device.Simulated
import PortLogic.Proofs.Dependency
import PortLogic.Proofs.Evaluation
import PortLogic.Proofs.Number.Power

/-!
# PortLogic.Proofs.Quiet — after a tick without evaluations

A tick leaves every port *settled*: its value is that of its expression on what the references read,
but for the changes that the next tick is going to find. The ports that a tick evaluates are settled
by it, and the others were settled before and none of what they read has changed since. When a tick
evaluates nothing there are no such changes left, and every port has the value of its expression
(`Traced.quiet_consistent`).

This takes for granted that the next tick finds every change that a tick makes. A write from outside
between the two can take one back, and then it is lost on the port itself and on what references it
until the next evaluation (`takingBack_not_consistent`). No state tells which ports have missed a
change, so the runs here carry along the slots that have (`Traced`).
-/

namespace PortLogic

open Table

namespace Table

variable [Power] {δ : Type}

/-- The value of a port is the one that its expression has where the references read what they
read in the table, except those of ports with a change that is not detected yet. -/
def Settled (t : Table δ) (p : Port δ) (expr : Expr) : Prop :=
  ∃ source : Source,
    (∀ id ∈ expr.ports, (∀ q, t.find? id = some q → q.Seen) →
      Value.Alike (source id) (t.source id)) ∧
    ∀ now x, (expr.eval ⟨source, now⟩).value.bind p.normalize = some x →
      Value.Alike p.value (some x)

end Table

namespace Engine

section

variable {δ : Type} [Driver δ] {before e : Engine δ} {missed : Nat → Bool} {now : Now}
  {slot trigger : Nat} {p q : Port δ} {expr : Expr}

/-! ## What a tick does not act on -/

variable [Power]

/-- A tick that does not evaluate a port that does not reference itself acts on none of its
triggers. -/
theorem not_actsOn_of_idle (hwired : e.table.Wired) (hget : e.table.get? slot = some p)
    (hlive : p.live = some expr) (hown : p.id ∉ expr.ports)
    (hidle : slot ∉ (e.tick now).1.evaluated)
    (htrigger : trigger = slot ∨ p.triggers.contains trigger = true) :
    ¬e.ActsOn now trigger := by
  intro hacts
  rcases (hwired.coherent hget).live hlive with ⟨henabled, houtput, -⟩
  apply hidle
  rw [mem_evaluated_iff_isTriggered hget henabled houtput (by rw [hlive]; rfl),
    isTriggered_iff hget houtput hacts htrigger]
  rintro ⟨-, -, hself⟩
  exact hown ((hwired.contains_triggers hget hlive hget).mp hself)

/-- Whether the change that the tick which left `before` made in a slot has been taken back in `e`,
without the slot being forced. -/
def takesBack (before e : Engine δ) (slot : Nat) : Bool :=
  (before.table.get? slot).any fun p => p.hasChanged && (e.table.get? slot).any fun q =>
    q.enabled && !q.hasChanged && !e.forced.contains slot

/-- Whether the change of a port, or of one that it references, has been taken back. -/
def misses (before e : Engine δ) (slot : Nat) : Bool :=
  before.table.entries.any fun (trigger, _) => before.takesBack e trigger &&
    (trigger = slot || (e.table.get? slot).any fun p => p.triggers.contains trigger)

/-- The slots that have missed a change when `e` ticks: those that missed it before and those that
miss one now, unless the tick evaluates them. -/
def missedAfter (before e : Engine δ) (missed : Nat → Bool) (now : Now) : Nat → Bool := fun slot =>
  !(e.tick now).1.evaluated.contains slot && (missed slot || before.misses e slot)

omit [Driver δ] in
omit [Power] in
theorem takesBack_eq_false (h : before.misses e slot = false) (hget : e.table.get? slot = some p)
    (htrigger : trigger = slot ∨ p.triggers.contains trigger = true) :
    before.takesBack e trigger = false := by
  rw [← Bool.not_eq_true]
  intro hback
  rcases (Option.any_eq_true _ _).mp hback with ⟨q, hq, -⟩
  have hmisses : before.misses e slot = true := by
    refine List.any_eq_true.mpr ⟨(trigger, q), mem_entries.mpr hq, ?_⟩
    simpa [hback, hget] using htrigger
  rw [h] at hmisses
  cases hmisses

/-- A slot that a tick does not act on holds the port that the previous tick left there, and its
value was the detected one all along. -/
theorem kept_of_not_actsOn (hbetween : before.Between e)
    (hback : before.takesBack e slot = false)
    (hinputs : ∀ {slot p}, before.table.get? slot = some p → p.output = false → p.Seen)
    (hget : e.table.get? slot = some p) (hacts : ¬e.ActsOn now slot) :
    ∃ q, before.table.get? slot = some q ∧ q.Kept (p.sample now).port ∧ q.Seen ∧
      (p.sample now).port.Seen := by
  have hfree : e.forced.contains slot = false := by
    rw [← Bool.not_eq_true]
    exact fun hforced => hacts (ActsOn.forced hforced)
  have hsampled : (p.sample now).port.hasChanged = false := by
    rw [← Bool.not_eq_true]
    intro hchanged
    refine hacts (ActsOn.change ?_ hchanged)
    rw [sampled_get?, hget, Option.map_some]
  -- the slot is not forced, so no operation has replaced or rewired its port
  rcases hbetween.kept hget with hforced | ⟨q, hq, hkept⟩
  · rw [hfree] at hforced
    cases hforced
  refine ⟨q, hq, hkept.trans (p.sample_kept now), ?_, Port.seen_of_not_hasChanged hsampled⟩
  cases houtput : q.output with
  | false => exact hinputs hq houtput
  | true =>
    -- a change that the tick made and that is not there any more has been taken back
    rw [p.sample_of_output (hkept.output.trans houtput)] at hsampled
    intro henabled
    refine Port.seen_of_not_hasChanged ?_ henabled
    rw [← Bool.not_eq_true]
    intro hchanged
    have htaken : before.takesBack e slot = true := by
      simp [takesBack, hq, hchanged, hget, hsampled, hfree, hkept.enabled, henabled]
    rw [hback] at htaken
    cases htaken

/-! ## Runs -/

/-- Operations lead to an engine from one without ports, without a write transform at any tick. The
first engine is the one that the last tick left, and the slots are those that have missed a change
since they were evaluated. -/
inductive Traced : Engine δ → Engine δ → (Nat → Bool) → Prop where
  | start (config : EngineConfig) : Traced (start config) (start config) fun _ => false
  | edit {before e : Engine δ} {missed : Nat → Bool} (h : Traced before e missed)
      (operation : Operation δ) (hedit : ∀ now, operation ≠ .tick now) :
      Traced before (e.perform operation).2 missed
  | tick {before e : Engine δ} {missed : Nat → Bool} (h : Traced before e missed)
      (hplain : e.writesPlainly = true) (now : Now) :
      Traced (e.tick now).2 (e.tick now).2 (before.missedAfter e missed now)

/-- Every run without write transforms can be traced. -/
theorem run_traced (config : EngineConfig) (operations : List (Operation δ))
    (hplain : ∀ done ∈ operations.inits, ((start config).run done).writesPlainly = true) :
    ∃ before missed, Traced before ((start config).run operations) missed := by
  induction operations using List.reverseRecOn with
  | nil => exact ⟨_, _, Traced.start config⟩
  | append_singleton done operation ih =>
    have hbefore {early : List (Operation δ)} (h : early ∈ done.inits) :
        early ∈ (done ++ [operation]).inits := by
      rw [List.mem_inits] at h ⊢
      exact h.trans (List.prefix_append done [operation])
    rcases ih fun early hearly => hplain early (hbefore hearly) with ⟨before, missed, h⟩
    rw [run, List.foldl_append]
    by_cases htick : ∃ now, operation = .tick now
    · rcases htick with ⟨now, rfl⟩
      have hdone := hplain done (hbefore ((List.mem_inits _ _).mpr (List.prefix_refl done)))
      exact ⟨_, _, h.tick hdone now⟩
    · exact ⟨_, _, h.edit operation fun now heq => htick ⟨now, heq⟩⟩

/-- What holds of the engine that the last tick left, and of the one since. -/
structure Consistent (before e : Engine δ) (missed : Nat → Bool) : Prop where
  wiredBefore : before.table.Wired
  wired : e.table.Wired
  between : before.Between e
  readable : before.table.Readable
  inputs : ∀ {slot p}, before.table.get? slot = some p → p.output = false → p.Seen
  settled : ∀ {slot p expr}, before.table.get? slot = some p → missed slot = false →
    p.live = some expr → expr.IsPlain → expr.hasFixedKeys = true → p.id ∉ expr.ports →
    before.table.Settled p expr

/-- A reference to a port that the tick does not act on reads after it what it read before. -/
theorem Consistent.source_alike {r : Port δ} (h : Consistent before e missed)
    (hwrites : ∀ (d : δ) x, (Driver.write d x).1 = .ok ()) (hplain : e.writesPlainly = true)
    (hslot : e.table.slotOf? r.id = some slot) (hget : e.table.get? slot = some r)
    (hacts : ¬e.ActsOn now slot) (hback : before.takesBack e slot = false)
    (hseen : ∀ q, (e.tick now).2.table.find? r.id = some q → q.Seen) :
    (∀ q, before.table.find? r.id = some q → q.Seen) ∧
      Value.Alike (before.table.source r.id) ((e.tick now).2.table.source r.id) := by
  rcases kept_of_not_actsOn h.between hback h.inputs hget hacts with ⟨q, hq, hkept, hqseen, hrseen⟩
  have hsampled := r.sample_kept now
  have hid : q.id = r.id := hkept.id.symm.trans hsampled.id
  have hbefore : before.table.slotOf? r.id = some slot := hid ▸ h.wiredBefore.distinct.slotOf? hq
  constructor
  · intro s hs
    rw [Table.find?, hbefore, Option.bind_some, hq] at hs
    rwa [← Option.some.inj hs]
  · rw [source_of_slotOf? hbefore hq, tick_source_of_seen hwrites hplain hslot hget hseen,
      ← hkept.enabled, hsampled.enabled]
    split
    · next hon =>
      refine hkept.lastRead_alike hqseen hrseen (h.readable hq) ?_ ?_
      · exact Port.sample_readable (h.between.readable h.readable hget) now
      · exact hsampled.enabled.trans hon
    · exact Value.Alike.refl none

/-- A port that is not evaluated is as settled as it was before. -/
theorem Consistent.settled_of_idle (h : Consistent before e missed)
    (hwrites : ∀ (d : δ) x, (Driver.write d x).1 = .ok ()) (hplain : e.writesPlainly = true)
    (hget : e.table.get? slot = some p) (hmissed : missed slot = false)
    (hmisses : before.misses e slot = false) (hlive : p.live = some expr) (hexpr : expr.IsPlain)
    (hfixed : expr.hasFixedKeys = true) (hown : p.id ∉ expr.ports)
    (hidle : slot ∉ (e.tick now).1.evaluated) :
    (e.tick now).2.table.Settled (p.sample now).port.acknowledge expr := by
  -- the tick acts neither on the slot nor on those that the expression references
  have hquiet {trigger : Nat} (htrigger : trigger = slot ∨ p.triggers.contains trigger = true) :
      ¬e.ActsOn now trigger :=
    not_actsOn_of_idle h.wired hget hlive hown hidle htrigger
  have hfree : e.forced.contains slot = false := by
    rw [← Bool.not_eq_true]
    exact fun hforced => hquiet (Or.inl rfl) (ActsOn.forced hforced)
  have hback := takesBack_eq_false hmisses hget (Or.inl rfl)
  rcases kept_of_not_actsOn h.between hback h.inputs hget (hquiet (Or.inl rfl)) with
    ⟨q, hq, hkept, hqseen, hpseen⟩
  have hsampled := p.sample_kept now
  have hqlive : q.live = some expr := hkept.live.symm.trans (hsampled.live.trans hlive)
  have hqid : q.id = p.id := hkept.id.symm.trans hsampled.id
  have henabled : (p.sample now).port.enabled = true :=
    hsampled.enabled.trans ((h.wired.coherent hget).live hlive).1
  -- so the source from before settles the port after the tick as well
  rcases h.settled hq hmissed hqlive hexpr hfixed (hqid ▸ hown) with ⟨source, hsource, hvalue⟩
  refine ⟨source, ?_, ?_⟩
  · intro id hmem hseen
    cases hslot : e.table.slotOf? id with
    | none =>
      -- a port of this identifier that has gone since would have forced the slot
      have hunknown := h.between.unknown hget hfree hlive hmem hslot
      have hread : Value.Alike (source id) (before.table.source id) := by
        refine hsource id hmem ?_
        intro r hr
        rw [find?_eq_none.mpr hunknown] at hr
        cases hr
      rw [source_of_unknown hunknown] at hread
      rwa [source_of_unknown ((tick_sameWiring e now).slotOf? ▸ hslot)]
    | some other =>
      rcases slotOf?_eq_some hslot with ⟨r, hr, rfl⟩
      have htrigger : other = slot ∨ p.triggers.contains other = true :=
        Or.inr ((h.wired.contains_triggers hget hlive hr).mpr hmem)
      rcases h.source_alike hwrites hplain hslot hr (hquiet htrigger)
        (takesBack_eq_false hmisses hget htrigger) hseen with ⟨hbefore, hread⟩
      exact (hsource r.id hmem hbefore).trans hread
  · intro clock x hx
    rw [Port.acknowledge_congr Port.normalize fun _ _ => rfl, hkept.normalize] at hx
    rw [Port.acknowledge_congr Port.value fun _ _ => rfl]
    exact (hkept.value_alike hqseen hpseen henabled).symm.trans (hvalue clock x hx)

/-- A port that is evaluated is settled by the source that it was evaluated from. -/
theorem Evaluated.settled (hwrites : ∀ (d : δ) x, (Driver.write d x).1 = .ok ())
    (hplain : e.writesPlainly = true) (hget : e.table.get? slot = some p)
    (hafter : (e.tick now).2.table.get? slot = some q)
    (h : Evaluated (e.atTurn now slot).table.source now expr (p.sample now).port.acknowledge q)
    (hexpr : expr.IsPlain) : (e.tick now).2.table.Settled q expr := by
  refine ⟨(e.atTurn now slot).table.source, ?_, ?_⟩
  · intro id _ hseen
    rw [atTurn_source hwrites hplain slot hseen]
    exact Value.Alike.refl _
  · intro clock x hx
    rcases (tick_sameWiring e now).get? hafter with ⟨p', hp', hwiring⟩
    obtain rfl := Option.some.inj (hget.symm.trans hp')
    have hclock : (expr.eval ⟨(e.atTurn now slot).table.source, now⟩).value =
        (expr.eval ⟨(e.atTurn now slot).table.source, clock⟩).value :=
      Expr.eval_congr hexpr fun _ _ => rfl
    refine h.value x ?_
    rwa [Port.acknowledge_congr Port.normalize fun _ _ => rfl, (p.sample_kept now).normalize,
      ← Port.normalize_of_wiring hwiring, hclock]

/-- A tick leaves a consistent engine, but for the slots that miss a change. -/
theorem Consistent.tick (h : Consistent before e missed)
    (hwrites : ∀ (d : δ) x, (Driver.write d x).1 = .ok ()) (hplain : e.writesPlainly = true)
    (now : Now) :
    Consistent (e.tick now).2 (e.tick now).2 (before.missedAfter e missed now) := by
  have hwired := h.wired.of_sameWiring (tick_sameWiring e now)
  have hsampled {slot : Nat} {p : Port δ} (hget : e.table.get? slot = some p) :
      (p.sample now).port.acknowledge.Readable :=
    (Port.acknowledge_congr Port.Readable fun _ _ => rfl).mpr
      (Port.sample_readable (h.between.readable h.readable hget) now)
  have hlive (p : Port δ) : (p.sample now).port.acknowledge.live = p.live :=
    (Port.acknowledge_congr Port.live fun _ _ => rfl).trans (p.sample_kept now).live
  -- every port after the tick is what the tick left of a port before it
  have hcases {slot : Nat} {q : Port δ} (hq : (e.tick now).2.table.get? slot = some q) :
      ∃ p, e.table.get? slot = some p ∧ q.wiring = p.wiring ∧
        (slot ∉ (e.tick now).1.evaluated ∧ q = (p.sample now).port.acknowledge ∨
          ∃ expr, p.live = some expr ∧ Evaluated (e.atTurn now slot).table.source now expr
            (p.sample now).port.acknowledge q) := by
    rcases (tick_sameWiring e now).get? hq with ⟨p, hget, hwiring⟩
    rcases tick_port hwrites hplain hget now with ⟨q', hq', hport⟩
    obtain rfl := Option.some.inj (hq.symm.trans hq')
    rw [hlive] at hport
    exact ⟨p, hget, hwiring, hport.imp_right And.right⟩
  refine ⟨hwired, hwired, Between.refl _, ?_, ?_, ?_⟩
  · intro slot q hq
    rcases hcases hq with ⟨p, hget, -, ⟨-, rfl⟩ | ⟨expr, -, hevaluated⟩⟩
    · exact hsampled hget
    · exact hevaluated.readable (hsampled hget)
  · intro slot q hq houtput
    rcases hcases hq with ⟨p, hget, hwiring, ⟨-, rfl⟩ | ⟨expr, hexpr, -⟩⟩
    · exact Port.acknowledge_seen _
    · have hon : p.output = true := ((h.wired.coherent hget).live hexpr).2.1
      rw [show q.output = p.output from congrArg Port.Wiring.output hwiring, hon] at houtput
      cases houtput
  · intro slot q expr hq hmissed hqlive hexpr hfixed hown
    rcases hcases hq with ⟨p, hget, hwiring, ⟨hidle, rfl⟩ | ⟨former, hformer, hevaluated⟩⟩
    · rw [show (p.sample now).port.acknowledge.id = p.id from
        congrArg Port.Wiring.id hwiring] at hown
      obtain ⟨hbefore, hmisses⟩ : missed slot = false ∧ before.misses e slot = false := by
        simpa [missedAfter, hidle] using hmissed
      exact h.settled_of_idle hwrites hplain hget hbefore hmisses ((hlive p).symm.trans hqlive)
        hexpr hfixed hown hidle
    · -- the evaluation has left the plain expression as it was
      obtain rfl : (former.eval _).next = expr :=
        Option.some.inj (hevaluated.live.symm.trans hqlive)
      have hplainFormer : former.IsPlain := by
        intro f hf
        refine hexpr f ?_
        rwa [← Expr.funcs_reset, Expr.next_reset, Expr.funcs_reset]
      rw [Expr.eval_next hplainFormer]
      exact hevaluated.settled hwrites hplain hget hq hplainFormer

theorem Traced.consistent (hwrites : ∀ (d : δ) x, (Driver.write d x).1 = .ok ())
    (h : Traced before e missed) : Consistent before e missed := by
  induction h with
  | start config =>
    have hnone {slot : Nat} {p : Port δ}
        (hget : (Engine.start config : Engine δ).table.get? slot = some p) : False := by
      rw [show (Engine.start config : Engine δ).table = Table.empty from rfl, get?_empty] at hget
      cases hget
    refine ⟨wired_empty, wired_empty, Between.refl _, ?_, ?_, ?_⟩
    · exact fun _ _ hget => (hnone hget).elim
    · exact fun hget => (hnone hget).elim
    · exact fun hget => (hnone hget).elim
  | edit _ operation hedit ih =>
    exact { ih with
      wired := perform_wired ih.wired operation
      between := ih.between.trans (perform_between ih.wired hedit) }
  | tick _ hplain now ih => exact ih.tick hwrites hplain now

/-- After a tick that evaluates nothing, every port whose expression is plain and does not reference
the port itself has the value of its expression, unless the port has missed a change. -/
theorem Traced.quiet_consistent [LawfulPower]
    (hwrites : ∀ (d : δ) x, (Driver.write d x).1 = .ok ())
    (h : Traced before e missed) (hplain : e.writesPlainly = true)
    (hquiet : (e.tick now).1.evaluated = [])
    (hget : (e.tick now).2.table.get? slot = some p)
    (hmissed : before.missedAfter e missed now slot = false) (hlive : p.live = some expr)
    (hexpr : expr.IsPlain) (hfixed : expr.hasFixedKeys = true) (hown : p.id ∉ expr.ports)
    {clock : Now} {x : Number}
    (hx : (expr.eval ⟨(e.tick now).2.table.source, clock⟩).value.bind p.normalize = some x) :
    (p.value == some x) = true := by
  have hafter := (h.tick hplain now).consistent hwrites
  rcases hafter.settled hget hmissed hlive hexpr hfixed hown with ⟨source, hsource, hvalue⟩
  -- nothing was evaluated, so that no change is waiting for detection
  have hseen {id : String} (q : Port δ) (hfind : (e.tick now).2.table.find? id = some q) :
      q.Seen := by
    rcases find?_eq_some hfind with ⟨other, -, hq, -⟩
    rcases (tick_sameWiring e now).get? hq with ⟨r, hr, -⟩
    rcases tick_port hwrites hplain hr now with ⟨q', hq', ⟨-, rfl⟩ | ⟨hevaluated, -⟩⟩
    · rw [Option.some.inj (hq.symm.trans hq')]
      exact Port.acknowledge_seen _
    · rw [hquiet] at hevaluated
      cases hevaluated
  have halike := Expr.eval_alike (c := ⟨(e.tick now).2.table.source, clock⟩)
    (d := ⟨source, clock⟩) hexpr hfixed fun id hid => (hsource id hid hseen).symm
  have hfits := halike.bind (f := p.normalize) fun hxy => Port.fit_alike hxy
  rw [hx] at hfits
  obtain ⟨y, hy, hxy⟩ : ∃ y, (expr.eval ⟨source, clock⟩).value.bind p.normalize = some y ∧
      Number.Alike x y := by
    generalize (expr.eval ⟨source, clock⟩).value.bind p.normalize = v at hfits
    cases hfits with
    | some hxy => exact ⟨_, rfl, hxy⟩
  rcases Option.bind_eq_some_iff.mp hx with ⟨z, -, hz⟩
  exact ((hvalue clock y hy).trans (Option.Rel.some hxy.symm)).beq (Port.fit_isFinite hz)

end

attribute [local instance] Power.rounded

/-- The port `a` is to follow `x`; its driver, if it had one, would accept every write. -/
def following : List (Operation (DigitalInput Simulated.World)) := [
  .addPort (PortConfig.virtualOutput "x") none,
  .addPort { PortConfig.virtualOutput "a" with expression := "$x" } none,
  .setValue "x" 1,
  .tick ⟨0, none⟩,
  .tick ⟨100, none⟩]

/-- Once it has followed, the port has the value of `x`. -/
theorem quiet_consistent_of_following :
    let e := (start EngineConfig.initial).run following
    (e.tick ⟨200, none⟩).1.evaluated = [] ∧
      ∃ p, (e.tick ⟨200, none⟩).2.table.get? 1 = some p ∧ (p.value == some 1) = true := by
  intro e
  have hquiet : (e.tick ⟨200, none⟩).1.evaluated = [] := by
    decide +kernel
  have hport : ((e.tick ⟨200, none⟩).2.table.get? 1).any (fun p => p.live.any fun expr =>
      decide (expr.IsPlain) && expr.hasFixedKeys && decide (p.id ∉ expr.ports) &&
        decide ((expr.eval ⟨(e.tick ⟨200, none⟩).2.table.source, Now.start⟩).value.bind
          p.normalize = some 1)) = true := by
    decide +kernel
  obtain ⟨missed, htraced, hmissed⟩ : ∃ missed, Traced e e missed ∧
      e.missedAfter e missed ⟨200, none⟩ 1 = false := by
    refine ⟨_, ((((Traced.start _).edit _ ?_).edit _ ?_).edit _ ?_).tick ?_ _ |>.tick ?_ _, ?_⟩
    · intro now h
      cases h
    · intro now h
      cases h
    · intro now h
      cases h
    · decide +kernel
    · decide +kernel
    · decide +kernel
  rcases (Option.any_eq_true _ _).mp hport with ⟨p, hget, hp⟩
  rcases (Option.any_eq_true _ _).mp hp with ⟨expr, hlive, hexpr⟩
  simp only [Bool.and_eq_true, decide_eq_true_eq] at hexpr
  rcases hexpr with ⟨⟨⟨hplain, hfixed⟩, hown⟩, hx⟩
  refine ⟨hquiet, p, hget, ?_⟩
  exact Traced.quiet_consistent (fun _ _ => rfl) htraced (by decide +kernel) hquiet hget hmissed
    hlive hplain hfixed hown hx

/-- Then `x` changes, the tick has `a` follow, and `a` is written back from outside. -/
def takingBack : List (Operation (DigitalInput Simulated.World)) :=
  following ++ [.setValue "x" 2, .tick ⟨200, none⟩, .setValue "a" 1]

/-- The change that was taken back is lost: the tick evaluates nothing, and `a` differs from `x`. -/
theorem takingBack_not_consistent :
    ¬∀ (config : EngineConfig) (operations : List (Operation (DigitalInput Simulated.World)))
      (now clock : Now) (slot : Nat) (p : Port (DigitalInput Simulated.World)) (expr : Expr)
      (x : Number),
      (∀ done ∈ operations.inits, ((start config).run done).writesPlainly = true) →
      let e := (start config).run operations
      (e.tick now).1.evaluated = [] → (e.tick now).2.table.get? slot = some p →
      p.enabled = true → p.output = true → p.live = some expr → expr.IsPlain →
      p.id ∉ expr.ports →
      (expr.eval ⟨(e.tick now).2.table.source, clock⟩).value.bind p.normalize = some x →
      (p.value == some x) = true := by
  intro h
  have hplain : ∀ done ∈ takingBack.inits,
      ((start EngineConfig.initial).run done).writesPlainly = true := by
    decide +kernel
  have hquiet :
      (((start EngineConfig.initial).run takingBack).tick ⟨300, none⟩).1.evaluated = [] := by
    decide +kernel
  have hport : ((((start EngineConfig.initial).run takingBack).tick ⟨300, none⟩).2.table.get?
      1).any (fun p => p.enabled && p.output && !(p.value == some 2) && p.live.any fun expr =>
        decide (expr.IsPlain) && decide (p.id ∉ expr.ports) &&
          decide ((expr.eval ⟨(((start EngineConfig.initial).run takingBack).tick
            ⟨300, none⟩).2.table.source, Now.start⟩).value.bind p.normalize = some 2)) = true := by
    decide +kernel
  rcases (Option.any_eq_true _ _).mp hport with ⟨p, hget, hp⟩
  rw [Bool.and_eq_true] at hp
  rcases (Option.any_eq_true _ _).mp hp.2 with ⟨expr, hlive, hexpr⟩
  simp only [Bool.and_eq_true, decide_eq_true_eq, Bool.not_eq_true'] at hp hexpr
  rcases hp with ⟨⟨⟨henabled, houtput⟩, hvalue⟩, -⟩
  rcases hexpr with ⟨⟨hexpr, hown⟩, hx⟩
  rw [h EngineConfig.initial takingBack ⟨300, none⟩ Now.start 1 p expr 2 hplain hquiet hget henabled
    houtput hlive hexpr hown hx] at hvalue
  cases hvalue

end Engine

end PortLogic
