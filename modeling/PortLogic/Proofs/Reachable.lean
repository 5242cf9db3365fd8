import PortLogic.Device.Simulated
import PortLogic.Number.Power
import PortLogic.Proofs.Wiring

/-!
# PortLogic.Proofs.Reachable — every reachable engine is wired

Ticks, writes, transforms, filters and flushes keep the wiring of every port (`SameWiring`). The
edits that change it replace the entry of one slot, and each of them keeps the table wired. By
induction on the operations that led to it, the table of every reachable engine is wired.
-/

namespace PortLogic

open Table

namespace Port

variable [Power] {δ : Type}

/-- A sample does not rewire a port. -/
theorem sample_wiring [Driver δ] (p : Port δ) (now : Now) :
    (p.sample now).port.wiring = p.wiring := by
  rcases p.sample_cases now with ⟨_, _, _, _, -, -, ⟨_, h⟩ | ⟨_, y, -, -, h⟩⟩
  · rw [h]
    rfl
  · rw [h, acceptSample]
    split <;> rfl

omit [Power] in
theorem acknowledge_wiring (p : Port δ) : p.acknowledge.wiring = p.wiring := by
  rcases p.acknowledge_eq with ⟨_, _, h⟩
  rw [h]
  rfl

end Port

namespace Engine

variable {δ : Type} [Driver δ] {e : Engine δ}

/-! ## Reachable engines -/

/-- What holds of an engine without ports and is kept by every operation holds of every reachable
engine. -/
theorem Reachable.induction [Power] {motive : Engine δ → Prop}
    (hstart : ∀ config, motive (start config))
    (hperform : ∀ e operation, motive e → motive (e.perform operation).2) (h : e.Reachable) :
    motive e := by
  rcases h with ⟨config, operations, rfl⟩
  induction operations using List.reverseRecOn with
  | nil => exact hstart config
  | append_singleton rest operation ih =>
    unfold run at ih ⊢
    rw [List.foldl_append]
    exact hperform _ operation ih

theorem reachable_start [Power] (config : EngineConfig) : (start config : Engine δ).Reachable :=
  ⟨config, [], rfl⟩

theorem Reachable.run [Power] (h : e.Reachable) (operations : List (Operation δ)) :
    (e.run operations).Reachable := by
  rcases h with ⟨config, before, rfl⟩
  refine ⟨config, before ++ operations, ?_⟩
  unfold Engine.run
  rw [List.foldl_append]

/-! ## What keeps the wiring -/

/-- An evaluation does not rewire its port: only the memories of the live tree advance. -/
theorem evaluateLive_wiring [Power] {slot : Nat} {p : Port δ} {expr : Expr}
    (hget : e.table.get? slot = some p) (hlive : p.live = some expr) (now : Now) :
    ∃ q, (e.evaluateLive slot p expr now).2.table.get? slot = some q ∧ q.wiring = p.wiring := by
  have hadvanced (ctx : Context) :
      ({ p with live := some (expr.eval ctx).next } : Port δ).wiring = p.wiring := by
    unfold Port.wiring
    rw [hlive, Option.map_some, Option.map_some, Expr.next_reset]
  rcases evaluateLive_cases e slot p expr now with
    ⟨h, -⟩ | ⟨x, writeTransform, driver, -, -, -, ⟨-, h⟩ | ⟨-, h⟩⟩
  · rw [h]
    exact ⟨_, modify_get?_self hget _, hadvanced _⟩
  · rw [h]
    exact ⟨_, modify_get?_self hget _, hadvanced _⟩
  · rw [h]
    exact ⟨_, modify_get?_self hget _, hadvanced _⟩

theorem tick_sameWiring [Power] (e : Engine δ) (now : Now) : e.table.SameWiring
    (e.tick now).2.table := by
  refine ⟨tick_length e now, ?_⟩
  intro slot
  cases hget : e.table.get? slot with
  | none => rw [tick_get?_of_none hget]
  | some p =>
    have hready := ready_get?_of_some hget now
    have hwiring : (p.sample now).port.acknowledge.wiring = p.wiring := by
      rw [Port.acknowledge_wiring, Port.sample_wiring]
    rcases tick_get?_cases hready with ⟨-, hafter⟩ | ⟨expr, hfires, hafter⟩
    · rw [hafter, Option.map_some, Option.map_some, hwiring]
    · rcases evaluateLive_wiring (atTurn_get?_self hready) hfires.live now with ⟨q, hq, hqw⟩
      rw [hafter, hq, Option.map_some, Option.map_some, hqw, hwiring]

omit [Driver δ] in
/-- Replacing the port of an entry by one that is wired alike keeps the wiring. -/
theorem modify_sameWiring {id : String} {slot : Nat} {p q : Port δ}
    (hentry : e.entry? id = some (slot, p)) (heq : q.wiring = p.wiring) :
    e.table.SameWiring (e.table.modify slot fun _ => q) := by
  rcases entry?_eq_some hentry with ⟨-, hget, -⟩
  apply SameWiring.modify
  intro r hr
  rw [hget] at hr
  rwa [← Option.some.inj hr]

omit [Driver δ] in
theorem setTransform_sameWiring {set : Port δ → Option Expr → Port δ}
    (hset : ∀ p transform, (set p transform).wiring = p.wiring) (e : Engine δ)
    (id source : String) : e.table.SameWiring (setTransform set e id source).2.table := by
  rcases setTransform_cases set e id source with
    ⟨err, h⟩ | ⟨slot, p, transform, hentry, -, h⟩
  · rw [h]
    exact SameWiring.refl _
  · rw [h]
    exact modify_sameWiring hentry (hset p transform)

omit [Driver δ] in
theorem setFilter_sameWiring (e : Engine δ) (id : String) (kind : FilterKind) (width : Nat) :
    e.table.SameWiring (e.setFilter id kind width).2.table := by
  rcases setFilter_cases e id kind width with
    ⟨err, h⟩ | ⟨slot, p, hentry, ⟨filter, dirty, h, -⟩ | ⟨-, h⟩⟩
  · rw [h]
    exact SameWiring.refl _
  · rw [h]
    exact modify_sameWiring hentry rfl
  · rw [h]
    exact modify_sameWiring hentry rfl

theorem setValue_sameWiring [Power] (e : Engine δ) (id : String) (x : Number) :
    e.table.SameWiring (e.setValue id x).2.table := by
  rcases setValue_cases e id x with ⟨err, h⟩ | ⟨slot, p, y, hentry, -, -, -, h⟩
  · rw [h]
    exact SameWiring.refl _
  · rcases commit_cases e slot p y .native with ⟨_, _, -, ⟨err, -, hcommit⟩ | ⟨-, hcommit⟩⟩
    · rw [h, hcommit]
      exact modify_sameWiring hentry rfl
    · rw [h, hcommit]
      exact modify_sameWiring hentry rfl

omit [Driver δ] in
theorem touch_sameWiring (e : Engine δ) (id : String) :
    e.table.SameWiring (e.touch id).2.table := by
  rcases touch_cases e id with ⟨err, h⟩ | ⟨slot, -, h⟩
  · rw [h]
    exact SameWiring.refl _
  · rw [h]
    exact SameWiring.refl _

omit [Driver δ] in
theorem takeDirtyConfigs_sameWiring (e : Engine δ) (now : Now) (force : Bool) :
    e.table.SameWiring (e.takeDirtyConfigs now force).2.table := by
  unfold takeDirtyConfigs
  split
  · exact SameWiring.refl _
  · exact SameWiring.map fun _ => rfl

omit [Driver δ] in
theorem adjustDriver_sameWiring (e : Engine δ) (id : String) (f : δ → δ) :
    e.table.SameWiring (e.adjustDriver id f).table := by
  unfold adjustDriver
  split
  · exact SameWiring.refl _
  · exact SameWiring.modify fun _ _ => rfl

/-! ## What rewires -/

omit [Driver δ] in
theorem portOf_coherent (e : Engine δ) (config : PortConfig) (driver : Option δ) :
    (e.portOf config driver).Coherent := by
  obtain ⟨expression, live, hport, ⟨rfl, rfl⟩ | ⟨expr, houtput, hread, rfl, rfl⟩⟩ :=
    portOf_cases e config driver
  · rw [hport]
    exact Port.coherent_of_empty rfl rfl
  · rcases readExpression_eq_ok.mp hread with ⟨hparse, -⟩
    rw [hport]
    refine Port.coherent_of_parse houtput (Expr.trim_ne_empty hparse) (Expr.parse_trim hparse) ?_
    show Option.map Expr.reset (if config.enabled then some expr else none) =
      if config.enabled then some expr else none
    split
    · rw [Option.map_some, Expr.parse_reset hparse]
    · rfl

omit [Driver δ] in
theorem addPort_wired (h : e.table.Wired) (config : PortConfig) (driver : Option δ) :
    (e.addPort config driver).2.table.Wired := by
  rcases addPort_cases e config driver with ⟨err, hadd⟩ | ⟨slot, -, hnew, hfree, hadd⟩
  · rw [hadd]
    exact h
  rw [hadd]
  rcases freeSlot?_eq_some hfree h.small with ⟨hle, hlt, hempty⟩
  have hid : (e.portOf config driver).id = config.id := by
    rcases portOf_cases e config driver with ⟨_, _, hport, -⟩
    rw [hport]
    rfl
  show (e.table.insert slot (e.portOf config driver)).refreshTriggers.Wired
  have hreplaces := insert_replaces (e.portOf config driver) hle
  refine h.replace hreplaces ?_ ?_ ?_ (fun _ _ _ => refreshTriggers_exact) ?_
  · rw [length_refreshTriggers]
    exact length_insert_le _ h.small hlt
  · -- a registered port of the identifier would have been refused
    intro p hp other q hq hqid
    rw [← Option.some.inj hp, hid] at hqid
    exact absurd hqid (slotOf?_eq_none.mp (find?_eq_none.mp hnew) other q hq)
  · intro p hp
    rw [← Option.some.inj hp]
    exact portOf_coherent e config driver
  · intro hu
    refine h.loopFree_replace hreplaces hu ?_ ?_
    · intro p hp
      rw [hempty] at hp
      cases hp
    · obtain ⟨expression, live, hport, ⟨rfl, -⟩ | ⟨expr, -, hread, rfl, -⟩⟩ :=
        portOf_cases e config driver
      · rw [hport]
        exact Or.inl rfl
      · rcases readExpression_eq_ok.mp hread with ⟨hparse, hdepth⟩
        rw [hport]
        exact Or.inr ⟨expr, Expr.parse_trim hparse, hdepth⟩

omit [Driver δ] in
theorem unregister_wired (h : e.table.Wired) (id : String) :
    (e.unregister id).2.table.Wired := by
  rcases unregister_cases e id with ⟨err, hun⟩ | ⟨slot, p, hentry, -, hun⟩
  · rw [hun]
    exact h
  rw [hun]
  rcases entry?_eq_some hentry with ⟨-, hget, rfl⟩
  show (e.table.free slot).refreshTriggers.Wired
  have hreplaces := free_replaces e.table slot
  refine h.replace hreplaces ?_ ?_ ?_ (fun _ _ _ => refreshTriggers_exact) ?_
  · rw [length_refreshTriggers]
    exact (length_free_le e.table slot).trans h.small
  · intro q hq
    cases hq
  · intro q hq
    cases hq
  · exact h.loopFree_remove hreplaces hget

omit [Driver δ] in
theorem modify_get? {id : String} {slot : Nat} {p : Port δ} (q : Port δ)
    (hentry : e.entry? id = some (slot, p)) (other : Nat) :
    (e.table.modify slot fun _ => q).get? other =
      if slot = other then some q else e.table.get? other := by
  rcases entry?_eq_some hentry with ⟨-, hget, -⟩
  rw [get?_modify]
  split
  · next heq => rw [← heq, hget, Option.map_some]
  · rfl

omit [Driver δ] in
theorem modify_replaces {id : String} {slot : Nat} {p : Port δ} (q : Port δ)
    (hentry : e.entry? id = some (slot, p)) :
    e.table.Replaces slot (some q) (e.table.modify slot fun _ => q) :=
  Replaces.of_get? (modify_get? q hentry)

omit [Driver δ] in
theorem modify_slotOf? {id : String} {slot : Nat} {p q : Port δ}
    (hentry : e.entry? id = some (slot, p)) (hid : q.id = p.id) :
    (e.table.modify slot fun _ => q).slotOf? = e.table.slotOf? := by
  rcases entry?_eq_some hentry with ⟨-, hget, -⟩
  refine slotOf?_congr ?_
  intro other
  rw [modify_get? q hentry]
  split
  · next heq => rw [← heq, hget, Option.map_some, Option.map_some, hid]
  · rfl

omit [Driver δ] in
/-- Giving a port of the table another source that was checked keeps the table wired. -/
theorem rewire_wired {id : String} {slot : Nat} {p q : Port δ} (h : e.table.Wired)
    (hentry : e.entry? id = some (slot, p)) (hid : q.id = p.id) (hcoherent : q.Coherent)
    (hchecked : q.expression = "" ∨
      ∃ expr, Expr.parse q.id q.expression = .ok expr ∧ e.table.loopDepth q.id expr ≤ 1) :
    (e.table.modify slot fun _ => q).refreshTriggers.Wired := by
  rcases entry?_eq_some hentry with ⟨-, hget, -⟩
  have hreplaces := (modify_replaces q hentry).refreshTriggers
  refine h.replace hreplaces ?_ ?_ ?_ (fun _ _ _ => refreshTriggers_exact) ?_
  · rw [length_refreshTriggers, length_modify]
    exact h.small
  · intro r hr other s hs hsid
    rw [← Option.some.inj hr, hid] at hsid
    exact h.distinct hget hs hsid.symm
  · intro r hr
    rwa [← Option.some.inj hr]
  · intro hu
    refine h.loopFree_replace hreplaces hu ?_ hchecked
    intro r hr
    rw [hid, Option.some.inj (hget.symm.trans hr)]

omit [Driver δ] in
theorem setExpression_wired (h : e.table.Wired) (id source : String) :
    (e.setExpression id source).2.table.Wired := by
  rcases setExpression_cases e id source with
    ⟨err, hset⟩ | ⟨slot, p, expr?, hentry, houtput, hread, hset⟩
  · rw [hset]
    exact h
  rw [hset]
  rcases entry?_eq_some hentry with ⟨-, -, hid⟩
  refine rewire_wired h hentry rfl ?_ ?_
  · rcases hread with ⟨hblank, rfl⟩ | ⟨expr, hexpr, rfl⟩
    · refine Port.coherent_of_empty (Text.trim_of_isBlankText hblank) ?_
      show (if p.enabled then none else none) = none
      rw [ite_self]
    · rcases readExpression_eq_ok.mp hexpr with ⟨hparse, -⟩
      refine Port.coherent_of_parse houtput (Expr.trim_ne_empty hparse)
        (hid ▸ Expr.parse_trim hparse) ?_
      show Option.map Expr.reset (if p.enabled then some expr else none) =
        if p.enabled then some expr else none
      split
      · rw [Option.map_some, Expr.parse_reset hparse]
      · rfl
  · rcases hread with ⟨hblank, rfl⟩ | ⟨expr, hexpr, rfl⟩
    · exact Or.inl (Text.trim_of_isBlankText hblank)
    · rcases readExpression_eq_ok.mp hexpr with ⟨hparse, hdepth⟩
      exact Or.inr ⟨expr, hid ▸ Expr.parse_trim hparse, hid ▸ hdepth⟩

omit [Driver δ] in
theorem enable_wired (h : e.table.Wired) (id : String) : (e.enable id).2.table.Wired := by
  rcases enable_cases e id with
    ⟨err, hen⟩ | ⟨slot, p, hentry, ⟨-, hen⟩ | ⟨hdisabled, live, hread, hen⟩⟩
  · rw [hen]
    exact h
  · rw [hen]
    exact h
  rw [hen]
  rcases entry?_eq_some hentry with ⟨-, hget, hid⟩
  have hcoherent := h.coherent hget
  refine rewire_wired h hentry rfl ?_ ?_
  · rcases hread with ⟨hempty, rfl⟩ | ⟨expr, hexpr, rfl⟩
    · exact Port.coherent_of_empty hempty rfl
    · rcases readExpression_eq_ok.mp hexpr with ⟨hparse, -⟩
      have hne : p.expression ≠ "" := by
        intro hempty
        rw [hempty] at hparse
        exact Expr.trim_ne_empty hparse rfl
      -- an input with a source would not have been coherent before
      rw [Port.Coherent, if_neg hne] at hcoherent
      refine Port.coherent_of_parse hcoherent.1 hne (hid ▸ hparse) ?_
      exact congrArg some (Expr.parse_reset hparse)
  · rcases hread with ⟨hempty, rfl⟩ | ⟨expr, hexpr, rfl⟩
    · exact Or.inl hempty
    · rcases readExpression_eq_ok.mp hexpr with ⟨hparse, hdepth⟩
      exact Or.inr ⟨expr, hid ▸ hparse, hid ▸ hdepth⟩

omit [Driver δ] in
/-- Taking the live tree from a port keeps the table wired: nothing triggers it any more, and its
stored source still references what it did. -/
theorem retire_wired {id : String} {slot : Nat} {p q : Port δ} (h : e.table.Wired)
    (hentry : e.entry? id = some (slot, p)) (hid : q.id = p.id)
    (hexpression : q.expression = p.expression) (hlive : q.live = none) (hcoherent : q.Coherent) :
    (e.table.modify slot fun _ => q).Wired := by
  rcases entry?_eq_some hentry with ⟨-, hget, -⟩
  have hafter := modify_get? q hentry
  have hsame (other : Nat) : ((e.table.modify slot fun _ => q).get? other).map
      (fun p => (p.id, p.expression)) = (e.table.get? other).map fun p => (p.id, p.expression) := by
    rw [hafter]
    split
    · next heq => rw [← heq, hget, Option.map_some, Option.map_some, hid, hexpression]
    · rfl
  refine h.replace (modify_replaces q hentry) ?_ ?_ ?_ ?_ ?_
  · exact (length_modify e.table slot _).symm ▸ h.small
  · intro r hr other s hs hsid
    rw [← Option.some.inj hr, hid] at hsid
    exact h.distinct hget hs hsid.symm
  · intro r hr
    rwa [← Option.some.inj hr]
  · intro other r expr hr hrlive
    rw [hafter] at hr
    split at hr
    · rw [← Option.some.inj hr, hlive] at hrlive
      cases hrlive
    · rw [modify_slotOf? hentry hid]
      exact h.triggers hr hrlive
  · intro hu
    exact h.loopFree.mono fun _ _ hrefers => hrefers.of_expression (find?_expression_congr hsame)

omit [Driver δ] in
theorem disable_wired (h : e.table.Wired) (id : String) : (e.disable id).2.table.Wired := by
  rcases disable_cases e id with
    ⟨err, hdis⟩ | ⟨slot, p, hentry, ⟨-, hdis⟩ | ⟨henabled, hdis⟩⟩
  · rw [hdis]
    exact h
  · rw [hdis]
    exact h
  rw [hdis]
  rcases entry?_eq_some hentry with ⟨-, hget, -⟩
  refine retire_wired h hentry rfl rfl rfl ?_
  have hcoherent := h.coherent hget
  by_cases hempty : p.expression = ""
  · exact Port.coherent_of_empty hempty rfl
  · rw [Port.Coherent, if_neg hempty] at hcoherent
    rcases hcoherent with ⟨houtput, expr, hparse, -⟩
    exact Port.coherent_of_parse houtput hempty hparse rfl

/-! ## All operations -/

/-- Every operation keeps a wired table wired. -/
theorem perform_wired [Power] (h : e.table.Wired) (operation : Operation δ) :
    (e.perform operation).2.table.Wired := by
  cases operation with
  | addPort config driver => exact addPort_wired h config driver
  | unregister id => exact unregister_wired h id
  | setValue id x => exact h.of_sameWiring (setValue_sameWiring e id x)
  | setExpression id source => exact setExpression_wired h id source
  | setReadTransform id source =>
    have hset (p : Port δ) (transform : Option Expr) :
        { p with readTransform := transform }.wiring = p.wiring := rfl
    exact h.of_sameWiring (setTransform_sameWiring hset e id source)
  | setWriteTransform id source =>
    have hset (p : Port δ) (transform : Option Expr) :
        { p with writeTransform := transform }.wiring = p.wiring := rfl
    exact h.of_sameWiring (setTransform_sameWiring hset e id source)
  | setFilter id kind width => exact h.of_sameWiring (setFilter_sameWiring e id kind width)
  | enable id => exact enable_wired h id
  | disable id => exact disable_wired h id
  | touch id => exact h.of_sameWiring (touch_sameWiring e id)
  | tick now => exact h.of_sameWiring (tick_sameWiring e now)
  | takeNotifications => exact h
  | takeDirtyConfigs now force => exact h.of_sameWiring (takeDirtyConfigs_sameWiring e now force)
  | adjustDriver id f => exact h.of_sameWiring (adjustDriver_sameWiring e id f)

/-- The table of every reachable engine is wired. -/
theorem Reachable.wired [Power] (h : e.Reachable) : e.table.Wired := by
  refine Reachable.induction (motive := fun e => e.table.Wired) ?_ ?_ h
  · intro config
    exact wired_empty
  · intro e operation hwired
    exact perform_wired hwired operation

/-- Whatever is registered, removed, assigned, disabled or enabled, references never form a loop
through two ports. -/
theorem Reachable.no_reference_loop [Power] (h : e.Reachable) : e.table.LoopFree :=
  h.wired.loopFree

attribute [local instance] Power.rounded

/-- A port may reference itself and one that is registered later, but that one not the other way
round. -/
theorem no_reference_loop_of_later_port :
    let e := (start EngineConfig.initial : Engine Simulated).run [
      .addPort { PortConfig.virtualOutput "a" with expression := "ADD($, $b)" } none,
      .addPort (PortConfig.virtualOutput "b") none,
      .setExpression "b" "NOT($a)"]
    e.table.referencesOf "a" = ["a", "b"] ∧ e.table.referencesOf "b" = [] ∧
      e.table.LoopFree := by
  refine ⟨by decide +kernel, by decide +kernel, ?_⟩
  exact Reachable.no_reference_loop ((reachable_start _).run _)

end Engine

end PortLogic
