import PortLogic.Device.Simulated
import PortLogic.Number.Power
import PortLogic.Proofs.History

/-!
# PortLogic.Proofs.Freshness — which tree the triggers of a port belong to

The triggers of a port are computed from its live tree and from the slots that the referenced ports
have. Registering, removing, assigning and enabling change one of the two and compute the triggers
of all ports again; disabling takes the live tree and does not. A port that is disabled keeps the
triggers of the tree that it had, which is that of its stored source, until the triggers of all
ports are computed the next time: until then it is *retired*. Every other port has the triggers of
its live tree, and none without one (`triggers_of_run`).
-/

namespace PortLogic

open Table

namespace Port

variable {δ : Type} {p : Port δ}

/-- What disabling leaves of an enabled port. -/
def released (p : Port δ) : Port δ :=
  { p with enabled := false, value := none, lastRead := none, live := none,
           filter := p.filter.reset, dirty := true }

/-- The tree of the stored source. -/
def storedTree (p : Port δ) : Option Expr :=
  (Expr.parse p.id p.expression).toOption

theorem storedTree_of_empty (hempty : p.expression = "") : p.storedTree = none := by
  unfold storedTree
  cases hparse : Expr.parse p.id p.expression with
  | error err => rfl
  | ok e =>
    rw [hempty] at hparse
    exact absurd rfl (Expr.trim_ne_empty hparse)

/-- An enabled port has the tree of its stored source live, up to its memories. -/
theorem Coherent.live_reset (h : p.Coherent) (henabled : p.enabled = true) :
    p.live.map Expr.reset = p.storedTree := by
  by_cases hempty : p.expression = ""
  · rw [Coherent, if_pos hempty] at h
    rw [storedTree_of_empty hempty, h, Option.map_none]
  · rw [Coherent, if_neg hempty] at h
    rcases h with ⟨-, e, hparse, hlive⟩
    rw [hlive, if_pos henabled, storedTree, hparse]
    rfl

end Port

namespace Table

variable {δ : Type} {t u : Table δ}

theorem treeTriggers_congr (h : u.slotOf? = t.slotOf?) (tree : Option Expr) :
    u.treeTriggers tree = t.treeTriggers tree := by
  unfold treeTriggers
  rw [h]

@[simp]
theorem treeTriggers_reset (t : Table δ) (tree : Option Expr) :
    t.treeTriggers (tree.map Expr.reset) = t.treeTriggers tree := by
  cases tree with
  | none => rfl
  | some e => exact Expr.triggers_reset t.slotOf? e

/-- A tree is triggered by the slots of the ports that it references. -/
theorem Wired.contains_treeTriggers {other : Nat} {q : Port δ} (h : t.Wired)
    (hother : t.get? other = some q) {tree : Option Expr} :
    (t.treeTriggers tree).contains other = true ↔ ∃ e, tree = some e ∧ q.id ∈ e.ports := by
  cases tree with
  | none => simp [treeTriggers]
  | some e =>
    show (e.triggers t.slotOf?).contains other = true ↔ _
    rw [h.contains_expr_triggers hother]
    simp

/-- A port has the triggers of its live tree; a retired one is disabled and has those of its stored
source. -/
structure Triggered (t : Table δ) (retired : Bool) (p : Port δ) : Prop where
  triggers : p.triggers = t.treeTriggers (if retired then p.storedTree else p.live)
  disabled : retired = true → p.enabled = false ∧ p.live = none

theorem refreshTriggers_triggered {slot : Nat} {p : Port δ}
    (hget : t.refreshTriggers.get? slot = some p) : t.refreshTriggers.Triggered false p where
  triggers := refreshTriggers_triggers hget
  disabled := by
    intro hretired
    cases hretired

/-- Whose triggers a port has depends on its wiring alone. -/
theorem Triggered.of_wiring {retired : Bool} {p q : Port δ} (h : t.Triggered retired p)
    (hslots : u.slotOf? = t.slotOf?) (heq : q.wiring = p.wiring) : u.Triggered retired q := by
  simp only [Port.wiring, Port.Wiring.mk.injEq] at heq
  rcases heq with ⟨hid, -, -, -, henabled, -, -, hexpression, hlive, htriggers⟩
  have htree : t.treeTriggers (if retired then q.storedTree else q.live) =
      t.treeTriggers (if retired then p.storedTree else p.live) := by
    cases retired with
    | true => rw [if_pos rfl, if_pos rfl, Port.storedTree, Port.storedTree, hid, hexpression]
    | false =>
      rw [if_neg Bool.false_ne_true, if_neg Bool.false_ne_true, ← treeTriggers_reset, hlive,
        treeTriggers_reset]
  constructor
  · rw [treeTriggers_congr hslots, htree, htriggers, h.triggers]
  · intro hretired
    rcases h.disabled hretired with ⟨hdisabled, hnone⟩
    rw [hnone, Option.map_none, Option.map_eq_none_iff] at hlive
    exact ⟨henabled.trans hdisabled, hlive⟩

/-- A port that is disabled keeps the triggers of its stored source. -/
theorem Triggered.released {retired : Bool} {p : Port δ} (h : t.Triggered retired p)
    (hcoherent : p.Coherent) (henabled : p.enabled = true) : t.Triggered true p.released where
  triggers := by
    -- an enabled port is not retired, so the triggers that it keeps are those of its live tree
    have hretired : ¬retired = true := by
      intro hretired
      rcases h.disabled hretired with ⟨hdisabled, -⟩
      rw [henabled] at hdisabled
      cases hdisabled
    show p.triggers = t.treeTriggers p.storedTree
    rw [h.triggers, if_neg hretired, ← hcoherent.live_reset henabled, treeTriggers_reset]
  disabled _ := ⟨rfl, rfl⟩

end Table

namespace Engine

variable {δ : Type}

/-- Whether an operation computes the triggers of all ports again. -/
def refreshes (e : Engine δ) : Operation δ → Bool
  | .addPort config driver => (e.addPort config driver).1.isOk
  | .unregister name => (e.unregister name).1.isOk
  | .setExpression name source => (e.setExpression name source).1.isOk
  | .enable name => (e.enable name).1.isOk && (e.entry? name).any fun entry => !entry.2.enabled
  | _ => false

/-- Whether an operation disables the enabled port with an identifier. -/
def retires (e : Engine δ) (id : String) : Operation δ → Bool
  | .disable name =>
    name == id && (e.disable name).1.isOk && (e.entry? name).any fun entry => entry.2.enabled
  | _ => false

/-- Whether the port with an identifier is retired after an operation. -/
def nextRetired (e : Engine δ) (id : String) (retired : Bool) (operation : Operation δ) : Bool :=
  !e.refreshes operation && (retired || e.retires id operation)

variable [Driver δ] {e : Engine δ}

/-- Whether a run retires the port with an identifier: it has disabled the port and has not computed
the triggers of all ports since. -/
def retired [Power] (e : Engine δ) (id : String) (known : Bool) : List (Operation δ) → Bool
  | [] => known
  | operation :: rest => (e.perform operation).2.retired id (e.nextRetired id known operation) rest

theorem retired_append_singleton [Power] (e : Engine δ) (id : String) (known : Bool)
    (operations : List (Operation δ)) (operation : Operation δ) :
    e.retired id known (operations ++ [operation]) =
      (e.run operations).nextRetired id (e.retired id known operations) operation := by
  induction operations generalizing e known with
  | nil => rfl
  | cons first rest ih => exact ih _ _

/-! ## Operations -/

omit [Driver δ] in
/-- What an operation does to the triggers of the ports. -/
inductive Retriggers (e : Engine δ) (operation : Operation δ) (after : Table δ) : Prop where
  /-- The triggers of all ports are computed again. -/
  | refreshed (before : Table δ) (hrefreshes : e.refreshes operation = true)
      (htable : after = before.refreshTriggers)
  /-- Every port stays wired as it is. -/
  | kept (hrefreshes : e.refreshes operation = false)
      (hretires : ∀ id, e.retires id operation = false) (hsame : e.table.SameWiring after)
  /-- An enabled port is disabled, and its triggers stay. -/
  | retired (slot : Nat) (p : Port δ) (hrefreshes : e.refreshes operation = false)
      (hretires : ∀ id, e.retires id operation = decide (p.id = id))
      (hentry : e.entry? p.id = some (slot, p)) (henabled : p.enabled = true)
      (htable : after = e.table.modify slot fun _ => p.released)

variable {operation : Operation δ} {edited : Edited δ}

omit [Driver δ] in
theorem Retriggers.of_rejected {err : Error} (hrefreshes : e.refreshes operation = edited.1.isOk)
    (hretires : ∀ id, e.retires id operation = false) (hedit : edited = (.error err, e)) :
    e.Retriggers operation edited.2.table := by
  subst hedit
  exact .kept hrefreshes hretires (SameWiring.refl _)

omit [Driver δ] in
theorem Retriggers.of_ok {after : Engine δ} {before : Table δ}
    (hrefreshes : e.refreshes operation = edited.1.isOk) (hedit : edited = (.ok (), after))
    (htable : after.table = before.refreshTriggers) : e.Retriggers operation edited.2.table := by
  subst hedit
  exact .refreshed before hrefreshes htable

omit [Driver δ] in
theorem enable_retriggers (e : Engine δ) (id : String) :
    e.Retriggers (.enable id) (e.enable id).2.table := by
  rcases enable_cases e id with
    ⟨err, hen⟩ | ⟨slot, p, hentry, ⟨henabled, hen⟩ | ⟨hdisabled, live, -, hen⟩⟩
  · refine .kept ?_ (fun _ => rfl) ?_
    · rw [refreshes, hen]
      rfl
    · rw [hen]
      exact SameWiring.refl _
  · refine .kept ?_ (fun _ => rfl) ?_
    · rw [refreshes, hentry, Option.any_some, henabled, Bool.not_true, Bool.and_false]
    · rw [hen]
      exact SameWiring.refl _
  · refine .refreshed _ ?_ (by rw [hen]; rfl)
    rw [refreshes, hen, hentry, Option.any_some, hdisabled]
    rfl

omit [Driver δ] in
theorem disable_retriggers (e : Engine δ) (name : String) :
    e.Retriggers (.disable name) (e.disable name).2.table := by
  rcases disable_cases e name with
    ⟨err, hdis⟩ | ⟨slot, p, hentry, ⟨hdisabled, hdis⟩ | ⟨henabled, hdis⟩⟩
  · refine .kept rfl ?_ ?_
    · intro id
      rw [retires, hdis]
      show (name == id && false && _) = false
      rw [Bool.and_false, Bool.false_and]
    · rw [hdis]
      exact SameWiring.refl _
  · refine .kept rfl ?_ ?_
    · intro id
      rw [retires, hentry, Option.any_some, hdisabled, Bool.and_false]
    · rw [hdis]
      exact SameWiring.refl _
  · rcases entry?_eq_some hentry with ⟨-, hget, rfl⟩
    refine .retired slot p rfl ?_ hentry henabled (by rw [hdis]; rfl)
    intro id
    rw [retires, hentry, hdis, Option.any_some, henabled, Bool.and_true]
    exact Bool.and_true _

/-- Registering, removing, assigning and enabling compute the triggers again, disabling retires a
port, and no other operation rewires any. -/
theorem perform_retriggers [Power] (e : Engine δ) (operation : Operation δ) :
    e.Retriggers operation (e.perform operation).2.table := by
  cases operation with
  | addPort config driver =>
    rcases addPort_cases e config driver with ⟨err, hadd⟩ | ⟨slot, -, -, -, hadd⟩
    · exact .of_rejected rfl (fun _ => rfl) hadd
    · exact .of_ok rfl hadd rfl
  | unregister name =>
    rcases unregister_cases e name with ⟨err, hun⟩ | ⟨slot, p, -, -, hun⟩
    · exact .of_rejected rfl (fun _ => rfl) hun
    · exact .of_ok rfl hun rfl
  | setExpression name source =>
    rcases setExpression_cases e name source with ⟨err, hset⟩ | ⟨slot, p, _, -, -, -, hset⟩
    · exact .of_rejected rfl (fun _ => rfl) hset
    · exact .of_ok rfl hset rfl
  | enable name => exact enable_retriggers e name
  | disable name => exact disable_retriggers e name
  | setValue name x => exact .kept rfl (fun _ => rfl) (setValue_sameWiring e name x)
  | setReadTransform name source =>
    have hset (p : Port δ) (transform : Option Expr) :
        { p with readTransform := transform }.wiring = p.wiring := rfl
    exact .kept rfl (fun _ => rfl) (setTransform_sameWiring hset e name source)
  | setWriteTransform name source =>
    have hset (p : Port δ) (transform : Option Expr) :
        { p with writeTransform := transform }.wiring = p.wiring := rfl
    exact .kept rfl (fun _ => rfl) (setTransform_sameWiring hset e name source)
  | setFilter name kind width =>
    exact .kept rfl (fun _ => rfl) (setFilter_sameWiring e name kind width)
  | touch name => exact .kept rfl (fun _ => rfl) (touch_sameWiring e name)
  | tick now => exact .kept rfl (fun _ => rfl) (tick_sameWiring e now)
  | takeNotifications => exact .kept rfl (fun _ => rfl) (SameWiring.refl _)
  | takeDirtyConfigs now force =>
    exact .kept rfl (fun _ => rfl) (takeDirtyConfigs_sameWiring e now force)
  | adjustDriver name f => exact .kept rfl (fun _ => rfl) (adjustDriver_sameWiring e name f)

/-! ## Runs -/

omit [Driver δ] in
/-- Every port has the triggers of its live tree, but those that are retired. -/
def Fresh (e : Engine δ) (retired : String → Bool) : Prop :=
  ∀ slot p, e.table.get? slot = some p → e.table.Triggered (retired p.id) p

/-- An operation keeps track of the retired ports. -/
theorem perform_fresh [Power] (hwired : e.table.Wired) {known : String → Bool} (h : e.Fresh known)
    (operation : Operation δ) :
    (e.perform operation).2.Fresh fun id => e.nextRetired id (known id) operation := by
  intro other q hq
  show Triggered _ (!e.refreshes operation && (known q.id || e.retires q.id operation)) q
  cases perform_retriggers e operation with
  | refreshed before hrefreshes htable =>
    rw [hrefreshes]
    rw [htable] at hq ⊢
    exact refreshTriggers_triggered hq
  | kept hrefreshes hretires hsame =>
    rcases hsame.get? hq with ⟨p, hp, heq⟩
    have hid : q.id = p.id := congrArg Port.Wiring.id heq
    rw [hrefreshes, hretires, Bool.or_false, hid]
    exact (h _ p hp).of_wiring hsame.slotOf? heq
  | retired slot p hrefreshes hretires hentry henabled htable =>
    rcases entry?_eq_some hentry with ⟨-, hget, -⟩
    have hslots : (e.table.modify slot fun _ => p.released).slotOf? = e.table.slotOf? :=
      modify_slotOf? hentry rfl
    rw [hrefreshes, hretires]
    rw [htable] at hq ⊢
    rw [modify_get? p.released hentry] at hq
    split at hq
    · obtain rfl := Option.some.inj hq
      show Triggered _ (!false && (known p.id || decide (p.id = p.id))) p.released
      rw [decide_eq_true rfl, Bool.or_true]
      exact ((h slot p hget).released (hwired.coherent hget) henabled).of_wiring hslots rfl
    · next hne =>
      have hid : p.id ≠ q.id := fun hid => hne (hwired.distinct hget hq hid)
      rw [decide_eq_false hid, Bool.or_false]
      exact (h _ q hq).of_wiring hslots rfl

/-- A run keeps track of the retired ports. -/
theorem run_fresh [Power] (config : EngineConfig) (operations : List (Operation δ)) :
    ((start config).run operations).Fresh fun id =>
      (start config : Engine δ).retired id false operations := by
  induction operations using List.reverseRecOn with
  | nil =>
    intro slot p hget
    have hempty : (empty : Table δ).get? slot = some p := hget
    rw [get?_empty] at hempty
    cases hempty
  | append_singleton rest operation ih =>
    have hwired := ((reachable_start config).run rest).wired
    intro slot p hget
    show Triggered _ ((start config : Engine δ).retired p.id false (rest ++ [operation])) p
    rw [run_append_singleton] at hget ⊢
    rw [retired_append_singleton]
    exact perform_fresh hwired ih operation slot p hget

/-- In every run each port has the triggers of its live tree in the table as it is, and none without
a live tree, but for the ports that are retired: those are disabled and have the triggers of their
stored source. -/
theorem triggers_of_run [Power] (config : EngineConfig) (operations : List (Operation δ))
    {slot : Nat} {p : Port δ} (hget : ((start config).run operations).table.get? slot = some p) :
    let t := ((start config : Engine δ).run operations).table
    let retired := (start config : Engine δ).retired p.id false operations
    p.triggers = t.treeTriggers (if retired then p.storedTree else p.live) ∧
      (retired = true → p.enabled = false ∧ p.live = none) := by
  have hfresh := run_fresh config operations slot p hget
  exact ⟨hfresh.triggers, hfresh.disabled⟩

attribute [local instance] Power.rounded

/-- The port `b` references `a`, `c` references `b`, and `b` is disabled. -/
def disabling : List (Operation Simulated) := [
  .addPort (PortConfig.virtualOutput "a") none,
  .addPort { PortConfig.virtualOutput "b" with expression := "$a" } none,
  .addPort { PortConfig.virtualOutput "c" with expression := "$b" } none,
  .disable "b"]

theorem triggers_of_disabling :
    let t := ((start EngineConfig.initial).run disabling).table
    ∃ b, t.get? 1 = some b ∧ b.id = "b" ∧ b.live = none ∧
      b.triggers = t.treeTriggers b.storedTree := by
  have hport : (((start EngineConfig.initial).run disabling).table.get? 1).any
      (fun p => decide (p.id = "b")) = true := by
    decide +kernel
  have hretired :
      (start EngineConfig.initial : Engine Simulated).retired "b" false disabling = true := by
    decide +kernel
  rcases (Option.any_eq_true _ _).mp hport with ⟨b, hget, hid⟩
  rw [decide_eq_true_eq] at hid
  rcases triggers_of_run EngineConfig.initial disabling hget with ⟨htriggers, hdisabled⟩
  rw [hid, hretired, if_pos rfl] at htriggers
  rw [hid] at hdisabled
  exact ⟨b, hget, hid, (hdisabled hretired).2, htriggers⟩

/-- The triggers of a port are not always those of its live tree: `b` has none, and the slot of `a`
still triggers it. -/
theorem disabling_keeps_triggers :
    ¬∀ (e : Engine Simulated) (slot : Nat) (p : Port Simulated),
      e.Reachable → e.table.get? slot = some p → p.triggers = e.table.treeTriggers p.live := by
  intro h
  have hport : (((start EngineConfig.initial).run disabling).table.get? 1).any
      (fun p => p.live.isNone && decide (p.triggers = Triggers.only 0)) = true := by
    decide +kernel
  rcases (Option.any_eq_true _ _).mp hport with ⟨p, hget, hp⟩
  rw [Bool.and_eq_true, Option.isNone_iff_eq_none, decide_eq_true_eq] at hp
  rcases hp with ⟨hlive, htriggers⟩
  have hexact := h _ 1 p ((reachable_start EngineConfig.initial).run disabling) hget
  rw [hlive, htriggers] at hexact
  exact absurd hexact (by decide)

/-! ## Requests -/

/-- A request for a port reaches the port itself and the ports whose live trees reference it, and
also the retired ports whose stored sources do. -/
theorem contains_triggeredBy_of_run [Power] (config : EngineConfig)
    (operations : List (Operation δ)) {slot other : Nat} {p q : Port δ}
    (hp : ((start config).run operations).table.get? slot = some p)
    (hq : ((start config).run operations).table.get? other = some q) :
    let retired := (start config : Engine δ).retired q.id false operations
    (((start config).run operations).table.triggeredBy slot).contains other = true ↔
      slot = other ∨
        ∃ tree, (if retired then q.storedTree else q.live) = some tree ∧ p.id ∈ tree.ports := by
  intro retired
  have hwired := ((reachable_start config).run operations).wired
  have htriggers := (run_fresh config operations other q hq).triggers
  rw [contains_triggeredBy]
  refine or_congr Iff.rfl ?_
  rw [← hwired.contains_treeTriggers hp, ← htriggers]
  constructor
  · rintro ⟨q', hq', hcontains⟩
    rwa [← Option.some.inj (hq.symm.trans hq')] at hcontains
  · intro hcontains
    exact ⟨q, hq, hcontains⟩

/-- A request for `a` has `c` evaluated, which references nothing but the disabled `b`. -/
example : (((start EngineConfig.initial).run (disabling ++ [.tick ⟨0, none⟩, .touch "a"])).tick
    ⟨100, none⟩).1.evaluated = [2] := by
  decide +kernel

end Engine

end PortLogic
