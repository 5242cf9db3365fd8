import PortLogic.Proofs.Loops
import PortLogic.Proofs.Tick

/-!
# PortLogic.Proofs.Wiring — how the ports of an engine hang together

The *wiring* of a port is what registering and editing it decide and no tick and no write changes. A
table is `Wired` when identifiers are distinct, every live tree is that of its stored source, what
triggers it is what it references, and no references form a loop. Every operation keeps a table
wired, so every reachable engine has one (`Reachable.wired`).
-/

namespace PortLogic

/-! ## Ports -/

namespace Port

/-- The part of a port that only edits change, the live tree up to its memories. -/
structure Wiring where
  id : String
  kind : PortKind
  output : Bool
  isVirtual : Bool
  enabled : Bool
  min : Option Number
  max : Option Number
  expression : String
  live : Option Expr
  triggers : Triggers

variable {δ : Type} {p q : Port δ}

/-- How a port is wired. -/
def wiring (p : Port δ) : Wiring where
  id := p.id
  kind := p.kind
  output := p.output
  isVirtual := p.isVirtual
  enabled := p.enabled
  min := p.min
  max := p.max
  expression := p.expression
  live := p.live.map Expr.reset
  triggers := p.triggers

/-- The live tree of a port is that of its stored source, which only an output has. -/
def Coherent (p : Port δ) : Prop :=
  if p.expression = "" then p.live = none
  else
    p.output = true ∧ ∃ e, Expr.parse p.id p.expression = .ok e ∧
      p.live.map Expr.reset = if p.enabled then some e else none

theorem coherent_of_empty (hempty : p.expression = "") (hlive : p.live = none) : p.Coherent := by
  rw [Coherent, if_pos hempty]
  exact hlive

theorem coherent_of_parse {e : Expr} (houtput : p.output = true) (hne : p.expression ≠ "")
    (hparse : Expr.parse p.id p.expression = .ok e)
    (hlive : p.live.map Expr.reset = if p.enabled then some e else none) : p.Coherent := by
  rw [Coherent, if_neg hne]
  exact ⟨houtput, e, hparse, hlive⟩

theorem Coherent.of_wiring (h : p.Coherent) (heq : q.wiring = p.wiring) : q.Coherent := by
  simp only [wiring, Wiring.mk.injEq] at heq
  rcases heq with ⟨hid, -, houtput, -, henabled, -, -, hexpression, hlive, -⟩
  unfold Coherent at h ⊢
  rw [hid, houtput, henabled, hexpression, hlive]
  split
  · next hempty =>
    rw [if_pos hempty] at h
    rw [h, Option.map_none, Option.map_eq_none_iff] at hlive
    exact hlive
  · next hne =>
    rw [if_neg hne] at h
    exact h

/-- Ports wired alike are live alike. -/
theorem isSome_live_of_wiring (h : q.wiring = p.wiring) : q.live.isSome = p.live.isSome := by
  have hreset : q.live.map Expr.reset = p.live.map Expr.reset := congrArg Wiring.live h
  rw [← Option.isSome_map, hreset, Option.isSome_map]

/-- A live tree belongs to an enabled output and is that of the stored source. -/
theorem Coherent.live {e : Expr} (h : p.Coherent) (hlive : p.live = some e) :
    p.enabled = true ∧ p.output = true ∧ p.expression ≠ "" ∧
      Expr.parse p.id p.expression = .ok e.reset := by
  unfold Coherent at h
  split at h
  · rw [h] at hlive
    cases hlive
  · next hne =>
    rcases h with ⟨houtput, parsed, hparse, hmap⟩
    rw [hlive, Option.map_some] at hmap
    split at hmap
    · next henabled =>
      rw [Option.some.inj hmap]
      exact ⟨henabled, houtput, hne, hparse⟩
    · cases hmap

/-- A port references what its stored source references, whether that is live or not. -/
theorem Coherent.references {e : Expr} (h : p.Coherent) (hne : p.expression ≠ "")
    (hparse : Expr.parse p.id p.expression = .ok e) : p.references = e.ports := by
  unfold Port.references
  cases hlive : p.live with
  | none =>
    simp only
    rw [if_neg hne, hparse]
  | some live =>
    rcases h.live hlive with ⟨-, -, -, hreset⟩
    rw [hparse] at hreset
    rw [Except.ok.inj hreset, Expr.ports_reset]

/-- What a port references, its stored source references. -/
theorem Coherent.mem_references {other : String} (h : p.Coherent) (hmem : other ∈ p.references) :
    ∃ e, p.expression ≠ "" ∧ Expr.parse p.id p.expression = .ok e ∧ other ∈ e.ports := by
  by_cases hempty : p.expression = ""
  · have hlive := h
    rw [Coherent, if_pos hempty] at hlive
    unfold Port.references at hmem
    rw [hlive, if_pos hempty] at hmem
    cases hmem
  · have hsource := h
    rw [Coherent, if_neg hempty] at hsource
    rcases hsource with ⟨-, e, hparse, -⟩
    exact ⟨e, hempty, hparse, h.references hempty hparse ▸ hmem⟩

end Port

/-! ## Tables -/

namespace Table

variable {δ : Type} {t u : Table δ} {slot : Nat}

/-- The table is wired as the rules of registering and editing want it. -/
structure Wired (t : Table δ) : Prop where
  distinct : t.Distinct
  small : t.slots.length ≤ Triggers.maxPorts
  coherent : ∀ {slot p}, t.get? slot = some p → p.Coherent
  triggers : ∀ {slot p e}, t.get? slot = some p → p.live = some e →
    p.triggers = e.triggers t.slotOf?
  loopFree : t.LoopFree

theorem Wired.faithful (h : t.Wired) : t.Faithful := by
  intro id p expr hfind hne hparse
  rcases find?_eq_some hfind with ⟨slot, -, hget, rfl⟩
  exact (h.coherent hget).references hne hparse

/-- An expression is triggered by the slots of the ports that it references. -/
theorem Wired.contains_expr_triggers {other : Nat} {q : Port δ} (h : t.Wired)
    (hother : t.get? other = some q) (e : Expr) :
    (e.triggers t.slotOf?).contains other = true ↔ q.id ∈ e.ports := by
  have hslot : other < Triggers.maxPorts := (lt_length_of_get? hother).trans_le h.small
  rw [Expr.contains_triggers]
  constructor
  · rintro (⟨id, hmem, hof⟩ | ⟨-, heq⟩ | ⟨-, heq⟩)
    · rcases slotOf?_eq_some hof with ⟨q', hq', hid⟩
      rw [hother] at hq'
      rwa [Option.some.inj hq', hid]
    -- the triggers of the clock are past all slots
    · rw [heq] at hslot
      exact absurd hslot (by decide)
    · rw [heq] at hslot
      exact absurd hslot (by decide)
  · intro hmem
    exact Or.inl ⟨q.id, hmem, h.distinct.slotOf? hother⟩

theorem Wired.contains_triggers {other : Nat} {p q : Port δ} {e : Expr} (h : t.Wired)
    (hget : t.get? slot = some p) (hlive : p.live = some e) (hother : t.get? other = some q) :
    p.triggers.contains other = true ↔ q.id ∈ e.ports := by
  rw [h.triggers hget hlive]
  exact h.contains_expr_triggers hother e

theorem wired_empty : (empty : Table δ).Wired where
  distinct := by
    intro slot other p q hp
    rw [get?_empty] at hp
    cases hp
  small := Nat.zero_le _
  coherent := by
    intro slot p hp
    rw [get?_empty] at hp
    cases hp
  triggers := by
    intro slot p e hp
    rw [get?_empty] at hp
    cases hp
  loopFree := by
    intro id other hto
    rcases Relation.TransGen.head'_iff.mp hto with ⟨next, ⟨p, expr, hfind, -⟩, -⟩
    rcases find?_eq_some hfind with ⟨slot, -, hget, -⟩
    rw [get?_empty] at hget
    cases hget

/-! ### Tables with the same wiring -/

/-- Both tables hold ports wired alike in the same slots. -/
structure SameWiring (t u : Table δ) : Prop where
  length : u.slots.length = t.slots.length
  wiring : ∀ slot, (u.get? slot).map Port.wiring = (t.get? slot).map Port.wiring

theorem SameWiring.refl (t : Table δ) : t.SameWiring t := ⟨rfl, fun _ => rfl⟩

theorem SameWiring.symm (h : t.SameWiring u) : u.SameWiring t :=
  ⟨h.length.symm, fun slot => (h.wiring slot).symm⟩

theorem SameWiring.trans {v : Table δ} (h : t.SameWiring u) (h' : u.SameWiring v) :
    t.SameWiring v :=
  ⟨h'.length.trans h.length, fun slot => (h'.wiring slot).trans (h.wiring slot)⟩

theorem SameWiring.map {f : Port δ → Port δ} (hf : ∀ p, (f p).wiring = p.wiring) :
    t.SameWiring (t.map f) := by
  refine ⟨length_map t f, ?_⟩
  intro slot
  rw [get?_map, Option.map_map]
  congr 1
  exact funext hf

theorem SameWiring.modify {f : Port δ → Port δ}
    (hf : ∀ p, t.get? slot = some p → (f p).wiring = p.wiring) :
    t.SameWiring (t.modify slot f) := by
  refine ⟨length_modify t slot f, ?_⟩
  intro other
  rw [get?_modify]
  split
  · next heq =>
    subst heq
    cases hget : t.get? slot with
    | none => rfl
    | some p => exact congrArg some (hf p hget)
  · rfl

theorem SameWiring.get? {p : Port δ} (h : t.SameWiring u) (hget : u.get? slot = some p) :
    ∃ q, t.get? slot = some q ∧ p.wiring = q.wiring := by
  have hmap := h.wiring slot
  rw [hget] at hmap
  rcases Option.map_eq_some_iff.mp hmap.symm with ⟨q, hq, heq⟩
  exact ⟨q, hq, heq.symm⟩

theorem SameWiring.map_id (h : t.SameWiring u) (slot : Nat) :
    (u.get? slot).map Port.id = (t.get? slot).map Port.id := by
  have hmap := congrArg (Option.map Port.Wiring.id) (h.wiring slot)
  rwa [Option.map_map, Option.map_map] at hmap

theorem SameWiring.slotOf? (h : t.SameWiring u) : u.slotOf? = t.slotOf? :=
  slotOf?_congr h.map_id

/-- With the same identifiers and sources in the slots, the sources are found alike. -/
theorem find?_expression_congr (h : ∀ slot, (u.get? slot).map (fun p => (p.id, p.expression)) =
    (t.get? slot).map fun p => (p.id, p.expression)) (id : String) :
    (u.find? id).map Port.expression = (t.find? id).map Port.expression := by
  have hslots : u.slotOf? = t.slotOf? := by
    refine slotOf?_congr ?_
    intro slot
    have hmap := congrArg (Option.map Prod.fst) (h slot)
    rwa [Option.map_map, Option.map_map] at hmap
  unfold Table.find?
  rw [hslots]
  cases t.slotOf? id with
  | none => rfl
  | some slot =>
    have hmap := congrArg (Option.map Prod.snd) (h slot)
    rwa [Option.map_map, Option.map_map] at hmap

theorem SameWiring.find?_expression (h : t.SameWiring u) (id : String) :
    (u.find? id).map Port.expression = (t.find? id).map Port.expression := by
  apply find?_expression_congr
  intro slot
  have hmap := congrArg (Option.map fun w => (Port.Wiring.id w, Port.Wiring.expression w))
    (h.wiring slot)
  rwa [Option.map_map, Option.map_map] at hmap

/-- With the same stored sources ports reference each other as before. -/
theorem Refers.of_expression (hsame : ∀ id, (u.find? id).map Port.expression =
    (t.find? id).map Port.expression) {id other : String} (h : u.Refers id other) :
    t.Refers id other := by
  rcases h with ⟨p, expr, hfind, hne, hparse, hmem, hsome⟩
  have hmap := hsame id
  rw [hfind] at hmap
  rcases Option.map_eq_some_iff.mp hmap.symm with ⟨q, hq, heq⟩
  have hother := congrArg Option.isSome (hsame other)
  rw [Option.isSome_map, Option.isSome_map, hsome] at hother
  exact ⟨q, expr, hq, heq ▸ hne, heq ▸ hparse, hmem, hother.symm⟩

/-- What keeps the wiring of every port keeps the table wired. -/
theorem Wired.of_sameWiring (h : t.Wired) (hsame : t.SameWiring u) : u.Wired where
  distinct := h.distinct.of_map_id hsame.map_id
  small := hsame.length ▸ h.small
  coherent := by
    intro slot p hp
    rcases hsame.get? hp with ⟨q, hq, heq⟩
    exact (h.coherent hq).of_wiring heq
  triggers := by
    intro slot p e hp hlive
    rcases hsame.get? hp with ⟨q, hq, heq⟩
    have htriggers : p.triggers = q.triggers := congrArg Port.Wiring.triggers heq
    have hmap : p.live.map Expr.reset = q.live.map Expr.reset := congrArg Port.Wiring.live heq
    rw [hlive] at hmap
    rcases Option.map_eq_some_iff.mp hmap.symm with ⟨d, hd, hreset⟩
    -- the live trees differ in their memories at most, which no trigger depends on
    rw [htriggers, h.triggers hq hd, hsame.slotOf?, ← Expr.triggers_reset, hreset,
      Expr.triggers_reset]
  loopFree := h.loopFree.mono fun _ _ hrefers => hrefers.of_expression hsame.find?_expression

/-! ### Tables that differ in one slot -/

/-- One table is the other with an entry in a slot replaced, whatever triggers each port. -/
def Replaces (t : Table δ) (slot : Nat) (entry : Option (Port δ)) (u : Table δ) : Prop :=
  ∀ other, ∃ triggers, u.get? other =
    (if slot = other then entry else t.get? other).map fun p => { p with triggers }

variable {entry : Option (Port δ)}

theorem Replaces.of_get?
    (h : ∀ other, u.get? other = if slot = other then entry else t.get? other) :
    t.Replaces slot entry u := by
  intro other
  rw [h other]
  rcases (if slot = other then entry else t.get? other) with _ | p
  · exact ⟨Triggers.none, rfl⟩
  · exact ⟨p.triggers, rfl⟩

theorem Replaces.refreshTriggers (h : t.Replaces slot entry u) :
    t.Replaces slot entry u.refreshTriggers := by
  intro other
  rcases h other with ⟨triggers, hget⟩
  unfold Table.refreshTriggers
  rw [get?_map, hget, Option.map_map]
  rcases (if slot = other then entry else t.get? other) with _ | p
  · exact ⟨Triggers.none, rfl⟩
  · exact ⟨_, rfl⟩

theorem insert_replaces (p : Port δ) (h : slot ≤ t.slots.length) :
    t.Replaces slot (some p) (t.insert slot p).refreshTriggers :=
  (Replaces.of_get? (get?_insert p h)).refreshTriggers

theorem free_replaces (t : Table δ) (slot : Nat) :
    t.Replaces slot none (t.free slot).refreshTriggers :=
  (Replaces.of_get? (get?_free t slot)).refreshTriggers

/-- A port in another slot was there before. -/
theorem Replaces.get?_of_ne {other : Nat} {q : Port δ} (h : t.Replaces slot entry u)
    (hne : slot ≠ other) (hget : u.get? other = some q) :
    ∃ p triggers, t.get? other = some p ∧ q = { p with triggers } := by
  rcases h other with ⟨triggers, hu⟩
  rw [if_neg hne, hget] at hu
  rcases Option.map_eq_some_iff.mp hu.symm with ⟨p, hp, heq⟩
  exact ⟨p, triggers, hp, heq.symm⟩

/-- The port in the slot itself is the one of the entry. -/
theorem Replaces.get?_self {q : Port δ} (h : t.Replaces slot entry u)
    (hget : u.get? slot = some q) : ∃ p triggers, entry = some p ∧ q = { p with triggers } := by
  rcases h slot with ⟨triggers, hu⟩
  rw [if_pos rfl, hget] at hu
  rcases Option.map_eq_some_iff.mp hu.symm with ⟨p, hp, heq⟩
  exact ⟨p, triggers, hp, heq.symm⟩

/-- A port in another slot is still there. -/
theorem Replaces.get?_kept {other : Nat} {p : Port δ} (h : t.Replaces slot entry u)
    (hne : slot ≠ other) (hget : t.get? other = some p) :
    ∃ triggers, u.get? other = some { p with triggers } := by
  rcases h other with ⟨triggers, hu⟩
  rw [if_neg hne, hget] at hu
  exact ⟨triggers, hu⟩

/-- Identifiers stay distinct when the new entry brings none that another slot has. -/
theorem Distinct.replace (ht : t.Distinct) (h : t.Replaces slot entry u)
    (hnew : ∀ p, entry = some p → ∀ other q, t.get? other = some q → q.id = p.id → slot = other) :
    u.Distinct := by
  intro i j p q hp hq hid
  -- two ports that are both old, or both the new one, are settled at once
  by_cases hi : slot = i
  · subst hi
    rcases h.get?_self hp with ⟨p', _, hentry, rfl⟩
    by_cases hj : slot = j
    · exact hj
    · rcases h.get?_of_ne hj hq with ⟨q', _, hq', rfl⟩
      exact hnew p' hentry j q' hq' hid.symm
  · rcases h.get?_of_ne hi hp with ⟨p', _, hp', rfl⟩
    by_cases hj : slot = j
    · subst hj
      rcases h.get?_self hq with ⟨q', _, hentry, rfl⟩
      exact absurd (hnew q' hentry i p' hp' hid) hi
    · rcases h.get?_of_ne hj hq with ⟨q', _, hq', rfl⟩
      exact ht hp' hq' hid

@[simp]
theorem refreshTriggers_slotOf? (t : Table δ) : t.refreshTriggers.slotOf? = t.slotOf? := by
  refine slotOf?_congr ?_
  intro slot
  unfold refreshTriggers
  rw [get?_map, Option.map_map]
  rfl

/-- What triggers a tree: nothing when there is none. -/
def treeTriggers (t : Table δ) (tree : Option Expr) : Triggers :=
  (tree.map (Expr.triggers t.slotOf?)).getD Triggers.none

/-- Triggers that are computed again are those of the live trees. -/
theorem refreshTriggers_triggers {p : Port δ} (hget : t.refreshTriggers.get? slot = some p) :
    p.triggers = t.refreshTriggers.treeTriggers p.live := by
  unfold treeTriggers
  rw [refreshTriggers_slotOf?]
  unfold refreshTriggers at hget
  rw [get?_map] at hget
  rcases Option.map_eq_some_iff.mp hget with ⟨q, -, rfl⟩
  rfl

theorem refreshTriggers_exact {p : Port δ} {e : Expr} (hget : t.refreshTriggers.get? slot = some p)
    (hlive : p.live = some e) : p.triggers = e.triggers t.refreshTriggers.slotOf? := by
  rw [refreshTriggers_triggers hget, hlive]
  rfl

/-- In a table with distinct identifiers the search by identifier shows what the slots hold. -/
theorem Distinct.find?_expression (ht : t.Distinct) {id x : String} :
    (t.find? id).map Port.expression = some x ↔
      ∃ slot p, t.get? slot = some p ∧ p.id = id ∧ p.expression = x := by
  rw [Option.map_eq_some_iff]
  constructor
  · rintro ⟨p, hfind, hx⟩
    rcases ht.find?_iff.mp hfind with ⟨slot, hget, hid⟩
    exact ⟨slot, p, hget, hid, hx⟩
  · rintro ⟨slot, p, hget, hid, hx⟩
    exact ⟨p, ht.find?_iff.mpr ⟨slot, hget, hid⟩, hx⟩

/-- Ports of other identifiers than those in the slot keep their sources. -/
theorem Replaces.find?_expression {owner id : String} (h : t.Replaces slot entry u)
    (ht : t.Distinct) (hu : u.Distinct) (hold : ∀ p, t.get? slot = some p → p.id = owner)
    (hentry : ∀ p, entry = some p → p.id = owner) (hne : id ≠ owner) :
    (u.find? id).map Port.expression = (t.find? id).map Port.expression := by
  refine Option.ext fun x => ?_
  rw [ht.find?_expression, hu.find?_expression]
  constructor
  · rintro ⟨other, q, hq, hid, hx⟩
    by_cases hslot : slot = other
    · subst hslot
      rcases h.get?_self hq with ⟨p, _, hp, rfl⟩
      exact absurd (hid.symm.trans (hentry p hp)) hne
    · rcases h.get?_of_ne hslot hq with ⟨p, _, hp, rfl⟩
      exact ⟨other, p, hp, hid, hx⟩
  · rintro ⟨other, p, hp, hid, hx⟩
    by_cases hslot : slot = other
    · subst hslot
      exact absurd (hid.symm.trans (hold p hp)) hne
    · rcases h.get?_kept hslot hp with ⟨triggers, hq⟩
      exact ⟨other, _, hq, hid, hx⟩

/-- A stored source that was checked, or none, closes no loop. -/
theorem Wired.loopFree_replace {q : Port δ} (ht : t.Wired) (h : t.Replaces slot (some q) u)
    (hu : u.Distinct) (hold : ∀ p, t.get? slot = some p → p.id = q.id)
    (hchecked : q.expression = "" ∨
      ∃ expr, Expr.parse q.id q.expression = .ok expr ∧ t.loopDepth q.id expr ≤ 1) :
    u.LoopFree := by
  have hsame (id : String) (hne : id ≠ q.id) :
      (u.find? id).map Port.expression = (t.find? id).map Port.expression := by
    refine h.find?_expression ht.distinct hu hold ?_ hne
    intro p hp
    rw [Option.some.inj hp]
  have howner {p : Port δ} (hfind : u.find? q.id = some p) : p.expression = q.expression := by
    rcases h slot with ⟨triggers, hget⟩
    rw [if_pos rfl, Option.map_some] at hget
    have hself := hu.find? hget
    rw [show u.find? q.id = _ from hself] at hfind
    rw [← Option.some.inj hfind]
  rcases hchecked with hempty | ⟨expr, hparse, hdepth⟩
  · -- without a source the port references nothing, like a literal
    refine ht.loopFree.assign (.literal 0) ht.faithful ?_ hsame ?_
    · rw [loopDepth_of_leaves (by intro id hid; cases hid)]
      exact Nat.zero_le 1
    · rintro other ⟨p, _, hfind, hne, -⟩
      exact absurd ((howner hfind).trans hempty) hne
  · -- the port references what the checked expression does, and the search passed that
    refine ht.loopFree.assign expr ht.faithful hdepth hsame ?_
    rintro other ⟨p, expr', hfind, -, hparse', hmem, -⟩
    rw [howner hfind, hparse] at hparse'
    rwa [Except.ok.inj hparse']

/-- When a port goes, the other ports reference no more than they did. -/
theorem Wired.loopFree_remove {p : Port δ} (ht : t.Wired) (h : t.Replaces slot none u)
    (hget : t.get? slot = some p) (hu : u.Distinct) : u.LoopFree := by
  have hgone : u.find? p.id = none := by
    rw [find?_eq_none, slotOf?_eq_none]
    intro other q hq hid
    by_cases hslot : slot = other
    · subst hslot
      rcases h.get?_self hq with ⟨_, _, hnone, -⟩
      cases hnone
    · rcases h.get?_of_ne hslot hq with ⟨q', _, hq', rfl⟩
      exact hslot (ht.distinct hget hq' hid.symm)
  have hne {id : String} (hsome : (u.find? id).isSome = true) : id ≠ p.id := by
    rintro rfl
    rw [hgone] at hsome
    cases hsome
  have hsame {id : String} (hid : id ≠ p.id) :
      (u.find? id).map Port.expression = (t.find? id).map Port.expression := by
    refine h.find?_expression ht.distinct hu ?_ ?_ hid
    · intro q hq
      rw [Option.some.inj (hget.symm.trans hq)]
    · intro q hq
      cases hq
  refine ht.loopFree.mono ?_
  rintro id other ⟨q, expr, hfind, hsource, hparse, hmem, hsome⟩
  -- neither end of the reference is the port that went
  have hmap := hsame (hne (by rw [hfind]; rfl))
  rw [hfind] at hmap
  rcases Option.map_eq_some_iff.mp hmap.symm with ⟨q', hq', heq⟩
  have hknown := congrArg Option.isSome (hsame (hne hsome))
  rw [Option.isSome_map, Option.isSome_map, hsome] at hknown
  exact ⟨q', expr, hq', heq ▸ hsource, heq ▸ hparse, hmem, hknown.symm⟩

/-- A table stays wired when the new entry is coherent and closes no loop. -/
theorem Wired.replace (ht : t.Wired) (h : t.Replaces slot entry u)
    (hsmall : u.slots.length ≤ Triggers.maxPorts)
    (hnew : ∀ p, entry = some p → ∀ other q, t.get? other = some q → q.id = p.id → slot = other)
    (hcoherent : ∀ p, entry = some p → p.Coherent)
    (htriggers : ∀ slot p e, u.get? slot = some p → p.live = some e →
      p.triggers = e.triggers u.slotOf?)
    (hfree : u.Distinct → u.LoopFree) : u.Wired where
  distinct := ht.distinct.replace h hnew
  small := hsmall
  coherent := by
    intro other q hq
    by_cases hslot : slot = other
    · subst hslot
      rcases h.get?_self hq with ⟨p, _, hp, rfl⟩
      exact hcoherent p hp
    · rcases h.get?_of_ne hslot hq with ⟨p, _, hp, rfl⟩
      have hkept : p.Coherent := ht.coherent hp
      exact hkept
  triggers := fun hget hlive => htriggers _ _ _ hget hlive
  loopFree := hfree (ht.distinct.replace h hnew)

end Table

end PortLogic
