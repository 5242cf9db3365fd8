import PortLogic.Proofs.Expr.Text
import PortLogic.Proofs.Values

/-!
# PortLogic.Proofs.Stored — a configuration describes its port

The configuration of a port holds texts of its trees, its value and the parts of its filter. What is
registered, assigned or moved leaves every port in a state that such a configuration describes in
full (`Reachable.stored`): sources are trimmed, transforms are trees that were read, filters have a
width that registering keeps. So the port that is made of the configuration is configured alike
(`config_portOf`), unless its expression is held back by a loop.
-/

namespace PortLogic

open Table

/-! ## Transforms -/

section Transforms

variable {id source : String} {transform : Option Expr}

theorem readTransformOf_cases (h : readTransformOf id source = .ok transform) :
    transform = none ∨
      ∃ e, transform = some e ∧ Expr.parse id source = .ok e ∧ ∀ other ∈ e.ports, other = id := by
  unfold readTransformOf at h
  split at h
  · exact Or.inl (Except.ok.inj h).symm
  split at h
  · cases h
  next e hparse =>
  split at h
  · cases h
  · next hown =>
    refine Or.inr ⟨e, (Except.ok.inj h).symm, hparse, ?_⟩
    intro other hother
    simpa using List.find?_eq_none.mp hown other hother

/-- A transform that was read starts with fresh memories. -/
theorem readTransformOf_reset (h : readTransformOf id source = .ok transform) :
    transform.map Expr.reset = transform := by
  rcases readTransformOf_cases h with rfl | ⟨e, rfl, hparse, -⟩
  · rfl
  · rw [Option.map_some, Expr.parse_reset hparse]

/-- A transform that was read for a port, whatever its memories are by now. -/
def ReadFor (id : String) (transform : Option Expr) : Prop :=
  ∃ source, readTransformOf id source = .ok (transform.map Expr.reset)

theorem readFor_none (id : String) : ReadFor id none := ⟨"", rfl⟩

theorem readFor_of_read (h : readTransformOf id source = .ok transform) : ReadFor id transform :=
  ⟨source, h.trans (congrArg _ (readTransformOf_reset h).symm)⟩

theorem ReadFor.advance {after : Option Expr} (h : ReadFor id transform)
    (hadvances : Expr.Advances transform after) : ReadFor id after := by
  rcases h with ⟨source, hread⟩
  exact ⟨source, hread.trans (congrArg _ hadvances.symm)⟩

/-- The text of a transform is read as the transform. -/
theorem ReadFor.text (h : ReadFor id transform) (hid : PortId.isValid id.toList = true) :
    readTransformOf id (Port.transformText transform) =
      .ok ((transform.map Expr.reset).map Expr.written) := by
  rcases h with ⟨source, hread⟩
  rw [← Port.transformText_reset]
  generalize transform.map Expr.reset = fresh at hread
  rcases readTransformOf_cases hread with rfl | ⟨e, rfl, hparse, hown⟩
  · rfl
  have hback := Expr.parse_text (Expr.parse_parsed hid hparse) id
  have hshown : ¬Text.isBlankText e.text = true := fun hblank =>
    Expr.trim_ne_empty hback (Text.trim_of_isBlankText hblank)
  have hports : e.written.ports.find? (· ≠ id) = none := by
    rw [Expr.ports_written, List.find?_eq_none]
    intro other hother
    simpa using hown other hother
  show readTransformOf id e.text = .ok (some e.written)
  unfold readTransformOf
  rw [if_neg hshown, hback]
  simp only
  rw [hports]

theorem Port.transformText_written (transform : Option Expr) :
    Port.transformText (transform.map Expr.written) = Port.transformText transform := by
  cases transform with
  | none => rfl
  | some e => exact Expr.text_written e

end Transforms

/-! ## Filters -/

/-- The width of a filter that registering and editing allow. -/
def Filter.Fair (f : Filter) : Prop :=
  1 ≤ f.width ∧ f.width ≤ Filter.maxWidth

theorem Filter.ofWidth_fair (kind : FilterKind) (width : Nat) : (ofWidth kind width).Fair :=
  ⟨Nat.le_max_left .., Nat.max_le.mpr ⟨by decide, Nat.min_le_left ..⟩⟩

theorem Filter.Fair.width_ofWidth {f : Filter} (h : f.Fair) (kind : FilterKind) :
    (ofWidth kind f.width).width = f.width := by
  show max 1 (min maxWidth f.width) = f.width
  rw [Nat.min_eq_right h.2, Nat.max_eq_right h.1]

namespace Port

variable {δ : Type} {p q : Port δ}

/-! ## Ports as they are stored -/

/-- A port that its configuration describes. -/
structure Stored (p : Port δ) : Prop where
  id : PortId.isValid p.id.toList = true
  expression : Text.trim p.expression = p.expression
  readTransform : ReadFor p.id p.readTransform
  writeTransform : ReadFor p.id p.writeTransform
  filter : p.filter.Fair

/-- The second port is the first one made anew: configured alike, with the same trees up to their
memories and the signs of zeros in the transforms. -/
structure Remade (p q : Port δ) : Prop where
  config : q.config = p.config
  live : q.live.map Expr.reset = p.live.map Expr.reset
  readTransform : (q.readTransform.map Expr.reset).map Expr.written =
    (p.readTransform.map Expr.reset).map Expr.written
  writeTransform : (q.writeTransform.map Expr.reset).map Expr.written =
    (p.writeTransform.map Expr.reset).map Expr.written

/-- Configurations that are equal describe the same trees. -/
theorem remade_of_config (hp : p.Stored) (hq : q.Stored) (hpc : p.Coherent) (hqc : q.Coherent)
    (h : q.config = p.config) : p.Remade q := by
  have hid : q.id = p.id := congrArg PortConfig.id h
  have htransform {transform other : Option Expr} (hread : ReadFor p.id transform)
      (hother : ReadFor q.id other) (htext : transformText other = transformText transform) :
      (other.map Expr.reset).map Expr.written = (transform.map Expr.reset).map Expr.written := by
    have hback := hother.text hq.id
    rw [htext, hid, hread.text hp.id] at hback
    exact (Except.ok.inj hback).symm
  refine ⟨h, ?_, htransform hp.readTransform hq.readTransform
    (congrArg PortConfig.readTransform h), htransform hp.writeTransform hq.writeTransform
    (congrArg PortConfig.writeTransform h)⟩
  have henabled : q.enabled = p.enabled := congrArg PortConfig.enabled h
  have hexpression : q.expression = p.expression := congrArg PortConfig.expression h
  unfold Coherent at hpc hqc
  rw [hexpression] at hqc
  by_cases hempty : p.expression = ""
  · rw [if_pos hempty] at hpc hqc
    rw [hpc, hqc]
  · rw [if_neg hempty] at hpc hqc
    rcases hpc with ⟨-, tree, hparse, hlive⟩
    rcases hqc with ⟨-, tree', hparse', hlive'⟩
    rw [hid, hparse] at hparse'
    rw [hlive, hlive', henabled, Except.ok.inj hparse']

theorem Move.stored (h : p.Move q) (hp : p.Stored) : q.Stored := by
  cases h with
  | advance hread hwrite hlive hfilter =>
    refine ⟨hp.id, hp.expression, hp.readTransform.advance hread,
      hp.writeTransform.advance hwrite, ?_⟩
    rw [Filter.Fair, hfilter.width]
    exact hp.filter
  | acknowledge =>
    rcases p.acknowledge_eq with ⟨reason, detected, heq⟩
    rw [heq]
    exact ⟨hp.id, hp.expression, hp.readTransform, hp.writeTransform, hp.filter⟩
  | assign source live =>
    exact ⟨hp.id, Text.trim_trim source, hp.readTransform, hp.writeTransform, hp.filter⟩
  | readTransform h =>
    exact ⟨hp.id, hp.expression, readFor_of_read h, hp.writeTransform, hp.filter⟩
  | writeTransform h =>
    exact ⟨hp.id, hp.expression, hp.readTransform, readFor_of_read h, hp.filter⟩
  | refilter kind width =>
    exact ⟨hp.id, hp.expression, hp.readTransform, hp.writeTransform,
      Filter.ofWidth_fair kind width⟩
  | accept | confirm | forget | enable | disable =>
    exact ⟨hp.id, hp.expression, hp.readTransform, hp.writeTransform, hp.filter⟩

end Port

namespace Engine

variable {δ : Type} {e : Engine δ}

theorem portOf_stored (e : Engine δ) {config : PortConfig} (driver : Option δ)
    (hid : PortId.isValid config.id.toList = true) : (e.portOf config driver).Stored := by
  have hread (source : String) :
      ReadFor config.id (readTransformOf config.id source).toOption.join := by
    cases h : readTransformOf config.id source with
    | error err => exact readFor_none config.id
    | ok transform => exact readFor_of_read h
  rcases portOf_cases e config driver with ⟨expression, live, hport, hexpression⟩
  rw [hport]
  refine ⟨hid, ?_, hread _, hread _, Filter.ofWidth_fair ..⟩
  rcases hexpression with ⟨rfl, -⟩ | ⟨expr, -, -, rfl, -⟩
  · rfl
  · exact Text.trim_trim _

/-- In a reachable engine every port is as its configuration describes it. -/
theorem Reachable.stored [Power] [Driver δ] (h : e.Reachable) {slot : Nat} {p : Port δ}
    (hget : e.table.get? slot = some p) : p.Stored := by
  refine h.port_induction ?_ Port.Move.stored ?_ hget
  · intro e config driver hid
    exact portOf_stored e driver hid
  · intro p hp
    exact ⟨hp.id, hp.expression, hp.readTransform, hp.writeTransform, hp.filter⟩

/-! ## Ports made of their configurations -/

variable {p : Port δ} {source : String}

theorem restoreExpression_of_empty (e : Engine δ) (p : Port δ) :
    e.restoreExpression "" p = p := by
  have hblank : Text.isBlankText "" = true := rfl
  unfold restoreExpression
  rw [if_pos (Or.inl hblank)]

theorem restoreExpression_of_read {expr : Expr} (houtput : p.output = true)
    (hread : e.readExpression p.id source = .ok expr) :
    e.restoreExpression source p =
      p.assignExpression source (if p.enabled then some expr else none) := by
  have hshown : ¬(Text.isBlankText source = true ∨ p.output = false) := by
    rw [houtput]
    rintro (hblank | hinput)
    · exact Expr.trim_ne_empty (readExpression_eq_ok.mp hread).1 (Text.trim_of_isBlankText hblank)
    · cases hinput
  unfold restoreExpression
  rw [if_neg hshown, hread]

/-- The source of a port comes back when no loop holds it back. -/
theorem restoreExpression_of_coherent {q : Port δ} (hcoherent : p.Coherent) (hstored : p.Stored)
    (hid : q.id = p.id) (houtput : q.output = p.output) (hempty : q.expression = "")
    (hdepth : ∀ expr, Expr.parse p.id p.expression = .ok expr →
      e.table.loopDepth p.id expr ≤ 1) :
    ∃ live, e.restoreExpression p.expression q = { q with expression := p.expression, live } := by
  by_cases hsource : p.expression = ""
  · refine ⟨q.live, ?_⟩
    rw [hsource, restoreExpression_of_empty, ← hempty]
  · rw [Port.Coherent, if_neg hsource] at hcoherent
    -- the source parses, so nothing but a loop could hold it back
    rcases hcoherent with ⟨hout, expr, hparse, -⟩
    have hread : e.readExpression q.id p.expression = .ok expr := by
      rw [hid]
      exact readExpression_eq_ok.mpr ⟨hparse, hdepth expr hparse⟩
    refine ⟨if q.enabled then some expr else none, ?_⟩
    rw [restoreExpression_of_read (houtput.trans hout) hread, Port.assignExpression,
      hstored.expression]

/-- A persisted value comes back, because it fits. -/
theorem value_ofConfig (hfitting : p.Fitting) (driver : Option δ) :
    (if p.persisted then (Port.ofConfig p.config driver).value else none) =
      if p.persisted then p.value else none := by
  cases hpersisted : p.persisted with
  | false => rfl
  | true =>
    show (if p.enabled = true ∧ p.persisted = true then
      (if p.persisted = true then p.value else none).bind p.normalize else none) = p.value
    rw [hpersisted, if_pos rfl]
    -- a disabled port stores no value, and gets none
    cases henabled : p.enabled with
    | false => rw [if_neg (by simp), (hfitting.idle henabled).1]
    | true =>
      rw [if_pos ⟨rfl, rfl⟩]
      cases hvalue : p.value with
      | none => rfl
      | some x => exact hfitting.value x hvalue

/-- The port that is made of a configuration is configured like the port that was described. -/
theorem config_portOf (hstored : p.Stored) (hfitting : p.Fitting) (hcoherent : p.Coherent)
    (hdepth : ∀ expr, Expr.parse p.id p.expression = .ok expr → e.table.loopDepth p.id expr ≤ 1)
    (driver : Option δ) : (e.portOf p.config driver).config = p.config := by
  have htransform {transform : Option Expr} (h : ReadFor p.id transform) :
      Port.transformText (readTransformOf p.id (Port.transformText transform)).toOption.join =
        Port.transformText transform := by
    rw [h.text hstored.id]
    exact (Port.transformText_written _).trans (Port.transformText_reset _)
  have hwidth : (Filter.ofWidth p.filter.kind (UInt64.ofNat p.filter.width).toNat).width =
      p.filter.width := by
    have hsmall : p.filter.width < 2 ^ 64 := Nat.lt_of_le_of_lt hstored.filter.2 (by decide)
    rw [UInt64.toNat_ofNat_of_lt' hsmall, hstored.filter.width_ofWidth]
  obtain ⟨live, hrestored⟩ := restoreExpression_of_coherent (e := e)
    (q := { Port.ofConfig p.config driver with
      readTransform := (readTransformOf p.id p.config.readTransform).toOption.join
      writeTransform := (readTransformOf p.id p.config.writeTransform).toOption.join })
    hcoherent hstored rfl rfl rfl hdepth
  rw [show e.portOf p.config driver = _ from hrestored]
  -- the fields that are not copied: the width, the transforms and the value
  show ({ p.config with
    filterWidth := UInt64.ofNat
      (Filter.ofWidth p.filter.kind (UInt64.ofNat p.filter.width).toNat).width
    readTransform := Port.transformText
      (readTransformOf p.id (Port.transformText p.readTransform)).toOption.join
    writeTransform := Port.transformText
      (readTransformOf p.id (Port.transformText p.writeTransform)).toOption.join
    value := if p.persisted then (Port.ofConfig p.config driver).value else none } :
      PortConfig) = p.config
  rw [hwidth, htransform hstored.readTransform, htransform hstored.writeTransform,
    value_ofConfig hfitting driver]
  rfl

end Engine

end PortLogic
