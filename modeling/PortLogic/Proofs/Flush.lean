import PortLogic.Device.Simulated
import PortLogic.Number.Power
import PortLogic.Proofs.Moves
import PortLogic.Service

/-!
# PortLogic.Proofs.Flush — flushes miss no change

Whatever changes the configuration of a port marks the port dirty: every move does
(`Port.Move.marked`). So a list that follows the flushes shows every port that is not dirty as it is
configured (`Mirrors`), and merging the dirty ones into it makes it the list of all configurations
(`Reachable.mirror_after_flush`). Registrations and removals are apart: they are not flushed.
-/

namespace PortLogic

open Table

/-! ## Ports -/

namespace Port

variable {δ : Type} {p q r : Port δ}

/-- A port that counts as stored counted as stored before, with the same configuration. -/
structure Marked (p q : Port δ) : Prop where
  id : q.id = p.id
  clean : q.dirty = false → p.dirty = false ∧ q.config = p.config

theorem Marked.refl (p : Port δ) : p.Marked p := ⟨rfl, fun h => ⟨h, rfl⟩⟩

theorem Marked.trans (h : p.Marked q) (h' : q.Marked r) : p.Marked r where
  id := h'.id.trans h.id
  clean hr := by
    rcases h'.clean hr with ⟨hq, hqr⟩
    rcases h.clean hq with ⟨hp, hpq⟩
    exact ⟨hp, hqr.trans hpq⟩

/-- A port that is dirty afterwards promises nothing. -/
theorem Marked.of_dirty (hid : q.id = p.id) (hdirty : q.dirty = true) : p.Marked q := by
  refine ⟨hid, ?_⟩
  intro hclean
  rw [hdirty] at hclean
  cases hclean

theorem transformText_of_advances {before after : Option Expr} (h : Expr.Advances before after) :
    transformText after = transformText before := by
  rw [← transformText_reset after, h, transformText_reset]

/-- A move either marks the port or keeps its configuration. -/
theorem Move.marked (h : p.Move q) : p.Marked q := by
  cases h with
  | advance hread hwrite hlive hfilter =>
    refine ⟨rfl, ?_⟩
    intro hclean
    refine ⟨hclean, ?_⟩
    unfold config
    simp only
    rw [transformText_of_advances hread, transformText_of_advances hwrite, hfilter.kind,
      hfilter.width]
  | accept reason henabled hfit =>
    refine ⟨rfl, ?_⟩
    intro hclean
    -- only a persisted port has its value in the configuration
    rcases Bool.or_eq_false_iff.mp hclean with ⟨hp, hpersisted⟩
    refine ⟨hp, ?_⟩
    unfold config
    simp only
    rw [hpersisted, if_neg Bool.false_ne_true, if_neg Bool.false_ne_true]
  | confirm henabled hfit hsame => exact ⟨rfl, fun hclean => ⟨hclean, rfl⟩⟩
  | acknowledge =>
    rcases p.acknowledge_eq with ⟨reason, detected, heq⟩
    rw [heq]
    exact ⟨rfl, fun hclean => ⟨hclean, rfl⟩⟩
  | assign source live => exact Marked.of_dirty rfl rfl
  | readTransform h => exact Marked.of_dirty rfl rfl
  | writeTransform h => exact Marked.of_dirty rfl rfl
  | refilter kind width => exact Marked.of_dirty rfl rfl
  | forget hdirty => exact Marked.of_dirty rfl hdirty
  | enable live hdisabled => exact Marked.of_dirty rfl rfl
  | disable henabled => exact Marked.of_dirty rfl rfl

theorem Moves.marked (h : p.Moves q) : p.Marked q :=
  h.keep (motive := p.Marked) (fun hmove hmarked => hmarked.trans hmove.marked) (Marked.refl p)

end Port

/-! ## Merging -/

namespace Service

variable {config : PortConfig} {configs : List PortConfig}

theorem merge_cons_self {other : PortConfig} (h : other.id = config.id) :
    merge (other :: configs) config = config :: configs := by
  unfold merge
  rw [List.findIdx?_cons, decide_eq_true h]
  rfl

theorem merge_cons_of_ne {other : PortConfig} (h : other.id ≠ config.id) :
    merge (other :: configs) config = other :: merge configs config := by
  unfold merge
  rw [List.findIdx?_cons, decide_eq_false h]
  simp only [Bool.false_eq_true, if_false]
  cases configs.findIdx? fun other => decide (other.id = config.id) with
  | none => rfl
  | some index => rfl

theorem foldl_merge_cons {changed : List PortConfig} {other : PortConfig}
    (h : ∀ config ∈ changed, other.id ≠ config.id) :
    changed.foldl merge (other :: configs) = other :: changed.foldl merge configs := by
  induction changed generalizing configs with
  | nil => rfl
  | cons config changed ih =>
    rw [List.foldl_cons, List.foldl_cons, merge_cons_of_ne (h config List.mem_cons_self)]
    exact ih fun config hconfig => h config (List.mem_cons_of_mem _ hconfig)

end Service

/-! ## Mirrors -/

/-- A list shows every port that is not dirty as it is configured, and every other one in some
form. -/
def Mirrors {δ : Type} (mirror : List PortConfig) (ports : List (Port δ)) : Prop :=
  List.Forall₂ (fun config p => config.id = p.id ∧ (p.dirty = false → config = p.config))
    mirror ports

namespace Mirrors

variable {δ : Type} {mirror : List PortConfig} {ports others : List (Port δ)}

theorem of_configs (ports : List (Port δ)) : Mirrors (ports.map Port.config) ports := by
  unfold Mirrors
  rw [List.forall₂_map_left_iff, List.forall₂_same]
  intro p _
  exact ⟨rfl, fun _ => rfl⟩

/-- Ports that are marked when they change are shown as before. -/
theorem marked (h : Mirrors mirror ports) (hmarked : List.Forall₂ Port.Marked ports others) :
    Mirrors mirror others := by
  induction h generalizing others with
  | nil =>
    cases hmarked
    exact List.Forall₂.nil
  | cons hfirst _ ih =>
    cases hmarked with
    | cons hpq hrest =>
      refine List.Forall₂.cons ⟨hfirst.1.trans hpq.id.symm, ?_⟩ (ih hrest)
      intro hclean
      rcases hpq.clean hclean with ⟨hp, heq⟩
      exact (hfirst.2 hp).trans heq.symm

/-- Merging the configurations of the dirty ports brings the list up to date. -/
theorem merge_dirty (h : Mirrors mirror ports) (hids : ports.Pairwise fun p q => p.id ≠ q.id) :
    ((ports.filter Port.dirty).map Port.config).foldl Service.merge mirror =
      ports.map Port.config := by
  induction h with
  | nil => rfl
  | @cons config p mirror ports hfirst _ ih =>
    rcases List.pairwise_cons.mp hids with ⟨hhead, htail⟩
    -- the configurations of the other ports pass over the entry of this one
    have hother (shown : PortConfig) (hid : shown.id = p.id) :
        ((ports.filter Port.dirty).map Port.config).foldl Service.merge (shown :: mirror) =
          shown :: ports.map Port.config := by
      rw [Service.foldl_merge_cons, ih htail]
      intro config hconfig
      rcases List.mem_map.mp hconfig with ⟨q, hq, rfl⟩
      rw [hid]
      exact hhead q (List.mem_of_mem_filter hq)
    cases hdirty : p.dirty with
    | true =>
      rw [List.filter_cons_of_pos hdirty, List.map_cons, List.foldl_cons,
        Service.merge_cons_self hfirst.1, hother p.config rfl, List.map_cons]
    | false =>
      rw [List.filter_cons_of_neg (by simp [hdirty]), hother config hfirst.1, List.map_cons,
        hfirst.2 hdirty]

end Mirrors

/-! ## Runs -/

namespace Engine

section

variable {δ : Type} [Driver δ] {e : Engine δ} {mirror : List PortConfig}

/-- What registers and removes no port. -/
def Operation.KeepsPorts : Operation δ → Prop
  | .addPort _ _ => False
  | .unregister _ => False
  | _ => True

/-- A list of configurations with what a reply flushes merged into it. -/
def Reply.mergeInto (mirror : List PortConfig) : Reply → List PortConfig
  | .flushed configs => configs.foldl Service.merge mirror
  | _ => mirror

variable [Power]

/-- A list of configurations that follows the flushes among a list of operations. -/
def mirrored (e : Engine δ) (mirror : List PortConfig) : List (Operation δ) → List PortConfig
  | [] => mirror
  | operation :: rest =>
    (e.perform operation).2.mirrored ((e.perform operation).1.mergeInto mirror) rest

omit [Driver δ] in
omit [Power] in
/-- A flush that does not have to wait takes the configurations of the dirty ports. -/
theorem takeDirtyConfigs_of_due {now : Now} {force : Bool} (hdue : e.mustWait now force = false) :
    e.takeDirtyConfigs now force =
      ((e.table.ports.filter Port.dirty).map Port.config,
        { e with
          lastFlush := now.uptime
          table := e.table.map fun p => { p with dirty := false } }) := by
  unfold takeDirtyConfigs
  rw [hdue, if_neg Bool.false_ne_true]

theorem perform_takeDirtyConfigs (e : Engine δ) (now : Now) (force : Bool) :
    e.perform (.takeDirtyConfigs now force) =
      (e.takeDirtyConfigs now force).map .flushed id := rfl

/-- What is flushed brings a mirror up to date, and the flush changes no configuration. -/
theorem flush_mergeInto (hmirrors : Mirrors mirror e.table.ports) (hwired : e.table.Wired)
    {now : Now} {force : Bool} (hdue : e.mustWait now force = false) :
    (e.perform (.takeDirtyConfigs now force)).1.mergeInto mirror =
      (e.perform (.takeDirtyConfigs now force)).2.portConfigs := by
  have hmerged := hmirrors.merge_dirty hwired.distinct.pairwise_ports
  rw [perform_takeDirtyConfigs, takeDirtyConfigs_of_due hdue]
  show ((e.table.ports.filter Port.dirty).map Port.config).foldl Service.merge mirror =
    ((e.table.map fun p => { p with dirty := false }).ports).map Port.config
  rw [hmerged, ports_map, List.map_map]
  rfl

theorem perform_mirrors (hmirrors : Mirrors mirror e.table.ports) (hwired : e.table.Wired)
    {operation : Operation δ} (hkeeps : operation.KeepsPorts) :
    Mirrors ((e.perform operation).1.mergeInto mirror) (e.perform operation).2.table.ports := by
  have hinPlace (h : operation.InPlace) :
      Mirrors ((e.perform operation).1.mergeInto mirror) (e.perform operation).2.table.ports := by
    have hmoves := perform_moves e h
    have hports := forall₂_ports hmoves.length hmoves.port
    have hmirror : (e.perform operation).1.mergeInto mirror = mirror := by
      cases operation <;> first | rfl | exact h.elim
    rw [hmirror]
    exact hmirrors.marked (hports.imp fun _ _ => Port.Moves.marked)
  cases operation with
  | addPort config driver => exact hkeeps.elim
  | unregister id => exact hkeeps.elim
  | takeDirtyConfigs now force =>
    cases hdue : e.mustWait now force with
    | true =>
      have hwait : e.takeDirtyConfigs now force = ([], e) := by
        unfold takeDirtyConfigs
        rw [hdue, if_pos rfl]
      rw [perform_takeDirtyConfigs, hwait]
      exact hmirrors
    | false =>
      rw [flush_mergeInto hmirrors hwired hdue]
      exact Mirrors.of_configs _
  | _ => exact hinPlace trivial

/-- A mirror that starts as the configurations of the ports and follows the flushes is the list of
configurations again after each flush that does not have to wait. -/
theorem Reachable.mirror_after_flush (h : e.Reachable) {operations : List (Operation δ)}
    (hkeeps : ∀ operation ∈ operations, operation.KeepsPorts) {now : Now} {force : Bool}
    (hdue : (e.run operations).mustWait now force = false) :
    e.mirrored e.portConfigs (operations ++ [.takeDirtyConfigs now force]) =
      (e.run (operations ++ [.takeDirtyConfigs now force])).portConfigs := by
  have hmirrors : Mirrors e.portConfigs e.table.ports := Mirrors.of_configs e.table.ports
  have hwired := h.wired
  -- from here on the mirror is any list that shows what is not dirty
  clear h
  generalize e.portConfigs = mirror at hmirrors ⊢
  induction operations generalizing e mirror with
  | nil => exact flush_mergeInto hmirrors hwired hdue
  | cons operation rest ih =>
    have hfirst := hkeeps operation List.mem_cons_self
    exact ih (fun other hother => hkeeps other (List.mem_cons_of_mem _ hother)) hdue
      (perform_wired hwired operation) _ (perform_mirrors hmirrors hwired hfirst)

end

attribute [local instance] Power.rounded

/-- A write, a flush that has to wait, and another write before the flush is forced. -/
theorem mirror_after_forced_flush :
    let e := (start EngineConfig.initial : Engine Simulated).run [
      .addPort { PortConfig.virtualOutput "a" with persisted := true } none]
    let operations := [.setValue "a" 1, .takeDirtyConfigs ⟨10, none⟩ false, .setValue "a" 2,
      .takeDirtyConfigs ⟨20, none⟩ true]
    e.mirrored e.portConfigs operations = (e.run operations).portConfigs ∧
      (e.run operations).portConfigs.map PortConfig.value = [some 2] := by
  intro e operations
  have hkeeps : ∀ operation ∈ ([.setValue "a" 1, .takeDirtyConfigs ⟨10, none⟩ false,
      .setValue "a" 2] : List (Operation Simulated)), operation.KeepsPorts := by
    intro operation hmem
    simp only [List.mem_cons, List.not_mem_nil, or_false] at hmem
    rcases hmem with rfl | rfl | rfl <;> trivial
  have hreachable : e.Reachable := (reachable_start _).run _
  exact ⟨Reachable.mirror_after_flush hreachable hkeeps (by decide +kernel), by decide +kernel⟩

end Engine

end PortLogic
