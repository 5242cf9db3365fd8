import PortLogic.Number.Power
import PortLogic.Proofs.Stored
import PortLogic.Service

/-!
# PortLogic.Proofs.Restart — an engine from its configurations

The configurations of an engine, registered one after the other in any order, make an engine that
is configured alike (`Reachable.restart`). Each registration is accepted: the identifiers differ and
there is room. Each expression comes back as well. It is checked while later ports are missing, but
a loop that the check finds would be one of the first engine (`Table.Wired.loopDepth_le`), which has
none.
-/

namespace PortLogic

open Relation Table

namespace Table

variable {δ : Type} {t u : Table δ}

/-! ## Tables without free slots -/

/-- Every slot holds a port. -/
def Dense (t : Table δ) : Prop :=
  t.slots = t.ports.map some

theorem dense_empty : (empty : Table δ).Dense := rfl

theorem Dense.freeSlot? (h : t.Dense) (hroom : t.ports.length < Triggers.maxPorts) :
    t.freeSlot? = some t.slots.length := by
  have htaken : t.slots.findIdx? Option.isNone = none := by
    rw [List.findIdx?_eq_none_iff, show t.slots = _ from h]
    intro entry hmem
    rcases List.mem_map.mp hmem with ⟨p, -, rfl⟩
    rfl
  have hlength : t.slots.length = t.ports.length := by
    conv => lhs; rw [show t.slots = _ from h]
    exact List.length_map _
  unfold Table.freeSlot?
  rw [htaken]
  simp only
  rw [if_pos (hlength ▸ hroom)]

theorem Dense.map (h : t.Dense) (f : Port δ → Port δ) : (t.map f).Dense := by
  unfold Dense
  rw [ports_map]
  show t.slots.map (Option.map f) = _
  rw [show t.slots = _ from h, List.map_map, List.map_map]
  rfl

theorem slots_insert_length (t : Table δ) (p : Port δ) :
    (t.insert t.slots.length p).slots = t.slots ++ [some p] := by
  unfold insert
  rw [if_neg (Nat.lt_irrefl _), Nat.sub_self, List.replicate_zero, List.append_nil]

theorem ports_insert_length (t : Table δ) (p : Port δ) :
    (t.insert t.slots.length p).ports = t.ports ++ [p] := by
  unfold ports
  rw [slots_insert_length, List.filterMap_append]
  rfl

/-- A port that is put past the end leaves no slot free. -/
theorem Dense.insert_length (h : t.Dense) (p : Port δ) : (t.insert t.slots.length p).Dense := by
  unfold Dense
  rw [slots_insert_length, ports_insert_length, List.map_append, show t.slots = _ from h]
  rfl

/-! ## Parts of a table -/

/-- Every port of the first table is configured like one of the second. -/
def PartOf (u t : Table δ) : Prop :=
  u.ports.map Port.config ⊆ t.ports.map Port.config

theorem PartOf.find? (hpart : u.PartOf t) (ht : t.Distinct) {id : String} {q : Port δ}
    (hq : u.find? id = some q) : ∃ p, t.find? id = some p ∧ p.config = q.config := by
  rcases find?_eq_some hq with ⟨slot, -, hget, rfl⟩
  have hmem : q.config ∈ t.ports.map Port.config :=
    hpart (List.mem_map.mpr ⟨q, mem_ports.mpr ⟨slot, hget⟩, rfl⟩)
  rcases List.mem_map.mp hmem with ⟨p, hp, hconfig⟩
  rcases mem_ports.mp hp with ⟨other, hother⟩
  have hid : p.id = q.id := congrArg PortConfig.id hconfig
  exact ⟨p, hid ▸ ht.find? hother, hconfig⟩

theorem PartOf.isSome_find? (hpart : u.PartOf t) (ht : t.Distinct) {id : String}
    (hknown : id ∈ u.ports.map Port.id) : (t.find? id).isSome = true := by
  rcases Option.isSome_iff_exists.mp (mem_ports_map_id.mp hknown) with ⟨q, hq⟩
  rcases hpart.find? ht hq with ⟨p, hp, -⟩
  exact Option.isSome_iff_exists.mpr ⟨p, hp⟩

/-- What a port of the part references, it references in the whole table. -/
theorem PartOf.refers (hpart : u.PartOf t) (ht : t.Distinct) (hu : u.Wired) {id next : String}
    (hknown : id ∈ u.ports.map Port.id) (hmem : next ∈ u.referencesOf id)
    (hnext : (t.find? next).isSome = true) : t.Refers id next := by
  rcases Option.isSome_iff_exists.mp (mem_ports_map_id.mp hknown) with ⟨q, hq⟩
  rcases hpart.find? ht hq with ⟨p, hp, hconfig⟩
  rcases find?_eq_some hq with ⟨slot, -, hget, rfl⟩
  rw [referencesOf, hq] at hmem
  rcases (hu.coherent hget).mem_references hmem with ⟨e, hne, hparse, hports⟩
  have hexpression : p.expression = q.expression := congrArg PortConfig.expression hconfig
  exact ⟨p, e, hp, hexpression ▸ hne, hexpression ▸ hparse, hports, hnext⟩

/-- A chain that a search finds in the part is a path of the whole table. -/
theorem PartOf.path (hpart : u.PartOf t) (ht : t.Distinct) (hu : u.Wired) {owner id : String}
    {n : Nat} (howner : (t.find? owner).isSome = true)
    (h : Leads owner u.referencesOf (· ∈ u.ports.map Port.id) n id) :
    (t.find? id).isSome = true ∧ ReflTransGen t.Refers id owner := by
  induction h with
  | arrived => exact ⟨howner, ReflTransGen.refl⟩
  | step _ hknown hmem _ ih =>
    exact ⟨hpart.isSome_find? ht hknown,
      ReflTransGen.head (hpart.refers ht hu hknown hmem ih.1) ih.2⟩

/-- A search among some ports of a table finds no loop, when the table has none. -/
theorem Wired.loopDepth_le (ht : t.Wired) (hu : u.Wired) (hpart : u.PartOf t) {p : Port δ}
    (hp : t.find? p.id = some p) {expr : Expr}
    (hparse : Expr.parse p.id p.expression = .ok expr) : u.loopDepth p.id expr ≤ 1 := by
  have hsource : p.expression ≠ "" := by
    intro hempty
    rw [hempty] at hparse
    exact Expr.trim_ne_empty hparse rfl
  have howner : (t.find? p.id).isSome = true := Option.isSome_iff_exists.mpr ⟨p, hp⟩
  by_contra hdeep
  have hfound : u.loopDepth p.id expr ≠ 0 := by omega
  obtain ⟨depth, id, n, hmem, hleads, -, hlong⟩ := exists_leads hfound
  rcases List.mem_map.mp hmem with ⟨first, hports, heq⟩
  rcases Prod.mk.inj heq with ⟨rfl, rfl⟩
  rcases hpart.path ht.distinct hu howner hleads with ⟨hsome, hpath⟩
  have hout : t.Refers p.id first := ⟨p, expr, hp, hsource, hparse, hports, hsome⟩
  -- the chain has another port than the owner, so it closes a loop through the two
  cases hleads with
  | arrived => exact absurd hlong (Nat.lt_irrefl 1)
  | step hne _ _ _ =>
    rcases reflTransGen_iff_eq_or_transGen.mp hpath with heq | hreturn
    · exact hne heq.symm
    · exact hne (ht.loopFree p.id first (TransGen.single hout) hreturn).symm

end Table

namespace Engine

section

variable {δ : Type} {e f : Engine δ}

/-! ## Registrations -/

/-- A registration is accepted and comes last when the identifier is new and no slot is free but
those past the end. -/
theorem addPort_dense (hdense : e.table.Dense) {config : PortConfig}
    (hid : PortId.isValid config.id.toList = true) (hnew : e.table.find? config.id = none)
    (hroom : e.portConfigs.length < Triggers.maxPorts) (driver : Option δ) :
    (e.addPort config driver).1 = .ok () ∧ (e.addPort config driver).2.table.Dense ∧
      (e.addPort config driver).2.portConfigs =
        e.portConfigs ++ [(e.portOf config driver).config] := by
  have hfree := hdense.freeSlot? (by rwa [portConfigs, List.length_map] at hroom)
  have hadd : e.addPort config driver = (.ok (), Engine.touchSlot { e with
      table := (e.table.insert e.table.slots.length
        (e.portOf config driver)).refreshTriggers } e.table.slots.length) := by
    unfold addPort
    rw [hid, hnew, hfree]
    rfl
  rw [hadd]
  refine ⟨rfl, (hdense.insert_length _).map _, ?_⟩
  show ((e.table.insert _ _).refreshTriggers.ports).map Port.config = _
  unfold Table.refreshTriggers
  rw [ports_map, ports_insert_length, List.map_map, List.map_append]
  rfl

variable [Driver δ] [Power]

theorem Reachable.distinct_configs (h : e.Reachable) :
    e.portConfigs.Pairwise fun c d => c.id ≠ d.id := by
  unfold portConfigs
  rw [List.pairwise_map]
  exact h.wired.distinct.pairwise_ports

theorem Reachable.length_portConfigs_le (h : e.Reachable) :
    e.portConfigs.length ≤ Triggers.maxPorts := by
  unfold portConfigs
  rw [List.length_map]
  exact (List.length_filterMap_le _ _).trans h.wired.small

/-- A configuration of one engine is accepted by another that has some of the others, and comes back
as it is. -/
theorem addPort_restores (he : e.Reachable) (hf : f.Reachable) (hdense : f.table.Dense)
    {config : PortConfig} {rest : List PortConfig}
    (hperm : (f.portConfigs ++ config :: rest).Perm e.portConfigs) (driver : Option δ) :
    (f.addPort config driver).1 = .ok () ∧ (f.addPort config driver).2.table.Dense ∧
      (f.addPort config driver).2.portConfigs = f.portConfigs ++ [config] := by
  have hmem : config ∈ e.portConfigs :=
    hperm.mem_iff.mp (List.mem_append_right _ List.mem_cons_self)
  rcases List.mem_map.mp hmem with ⟨p, hp, rfl⟩
  rcases mem_ports.mp hp with ⟨slot, hget⟩
  have hstored := he.stored hget
  have hnew : f.table.find? p.config.id = none := by
    have hdistinct := (hperm.pairwise_iff fun h => Ne.symm h).mpr he.distinct_configs
    rw [← Option.not_isSome_iff_eq_none, ← mem_ports_map_id]
    intro hknown
    rcases List.mem_map.mp hknown with ⟨q, hq, hid⟩
    exact (List.pairwise_append.mp hdistinct).2.2 _ (List.mem_map_of_mem hq) _
      List.mem_cons_self hid
  have hroom : f.portConfigs.length < Triggers.maxPorts := by
    have hlength := hperm.length_eq
    rw [List.length_append, List.length_cons] at hlength
    have hle := he.length_portConfigs_le
    omega
  have hpart : f.table.PartOf e.table := fun config hmem =>
    hperm.mem_iff.mp (List.mem_append_left _ hmem)
  have hconfig : (f.portOf p.config driver).config = p.config := by
    refine config_portOf hstored (he.fitting hget) (he.wired.coherent hget) ?_ driver
    intro expr hparse
    exact he.wired.loopDepth_le hf.wired hpart (he.wired.distinct.find? hget) hparse
  have hadded := addPort_dense hdense hstored.id hnew hroom driver
  rwa [hconfig] at hadded

/-- The engine after some of the registrations has the ports so far, in the order in which they were
registered. -/
theorem register_restores (he : e.Reachable) (settings : EngineConfig)
    (ports : List (PortConfig × Option δ)) {rest : List PortConfig}
    (hperm : (ports.map Prod.fst ++ rest).Perm e.portConfigs) :
    let f := Service.register (start settings) ports
    f.Reachable ∧ f.table.Dense ∧ f.portConfigs = ports.map Prod.fst := by
  induction ports using List.reverseRecOn generalizing rest with
  | nil => exact ⟨reachable_start settings, dense_empty, rfl⟩
  | append_singleton before port ih =>
    rcases port with ⟨config, driver⟩
    rw [List.map_append, List.append_assoc] at hperm
    rcases ih hperm with ⟨hreachable, hdense, hconfigs⟩
    -- what was registered so far, and this configuration, are a part of the whole
    rw [← hconfigs] at hperm
    rcases addPort_restores he hreachable hdense hperm driver with ⟨-, hdense', hconfigs'⟩
    intro f
    have hf : f = ((Service.register (start settings) before).addPort config driver).2 := by
      show Service.register _ _ = _
      unfold Service.register
      rw [List.foldl_append]
      rfl
    rw [hf]
    refine ⟨hreachable.run [.addPort config driver], hdense', ?_⟩
    rw [hconfigs', hconfigs, List.map_append]
    rfl

/-! ## Restarts -/

omit [Driver δ] in
omit [Power] in
theorem portConfig?_eq_some (h : e.table.Distinct) {id : String} {config : PortConfig} :
    e.portConfig? id = some config ↔ config ∈ e.portConfigs ∧ config.id = id := by
  unfold portConfig? portConfigs
  rw [Option.map_eq_some_iff, List.mem_map]
  constructor
  · rintro ⟨p, hfind, rfl⟩
    rcases h.find?_iff.mp hfind with ⟨slot, hget, hid⟩
    exact ⟨⟨p, mem_ports.mpr ⟨slot, hget⟩, rfl⟩, hid⟩
  · rintro ⟨⟨p, hp, rfl⟩, hid⟩
    rcases mem_ports.mp hp with ⟨slot, hget⟩
    exact ⟨p, h.find?_iff.mpr ⟨slot, hget, hid⟩, rfl⟩

/-- The configurations of a reachable engine, registered one after the other in any order, are all
accepted, and every port is configured as it was: with its expression, its transforms, its filter
and the value that was to persist. -/
theorem Reachable.restart (h : e.Reachable) (settings : EngineConfig)
    (ports : List (PortConfig × Option δ)) (hperm : (ports.map Prod.fst).Perm e.portConfigs) :
    (∀ before config driver after, ports = before ++ (config, driver) :: after →
      ((Service.register (start settings) before).addPort config driver).1 = .ok ()) ∧
    (Service.register (start settings) ports).portConfigs = ports.map Prod.fst ∧
    (∀ id, (Service.register (start settings) ports).portConfig? id = e.portConfig? id) ∧
    ∀ id p, e.table.find? id = some p →
      ∃ q, (Service.register (start settings) ports).table.find? id = some q ∧ p.Remade q := by
  have hall := hperm
  rw [← List.append_nil (ports.map Prod.fst)] at hall
  rcases register_restores h settings ports hall with ⟨hreachable, -, hconfigs⟩
  have hfound (id : String) :
      (Service.register (start settings) ports).portConfig? id = e.portConfig? id := by
    refine Option.ext fun config => ?_
    rw [portConfig?_eq_some hreachable.wired.distinct, portConfig?_eq_some h.wired.distinct,
      hconfigs, hperm.mem_iff]
  refine ⟨?_, hconfigs, hfound, ?_⟩
  · -- each registration starts from the engine that those before it made
    rintro before config driver after rfl
    rw [List.map_append] at hperm
    rcases register_restores h settings before hperm with ⟨hbefore, hdense, hsofar⟩
    rw [← hsofar] at hperm
    exact (addPort_restores h hbefore hdense hperm driver).1
  · intro id p hp
    have hq := hfound id
    unfold portConfig? at hq
    rw [hp] at hq
    rcases Option.map_eq_some_iff.mp hq with ⟨q, hq, hconfig⟩
    rcases find?_eq_some hp with ⟨slot, -, hget, -⟩
    rcases find?_eq_some hq with ⟨other, -, hother, -⟩
    exact ⟨q, hq, Port.remade_of_config (h.stored hget) (hreachable.stored hother)
      (h.wired.coherent hget) (hreachable.wired.coherent hother) hconfig⟩

end

attribute [local instance] Power.rounded

/-- A port and the disabled one that references it come back in the opposite order. -/
theorem restart_in_reverse :
    let e := (start EngineConfig.initial : Engine Simulated).run [
      .addPort { PortConfig.virtualOutput "level" with persisted := true, min := some 0 } none,
      .addPort { PortConfig.virtualOutput "double" with expression := "mul($level,2)" } none,
      .setWriteTransform "level" "add( $, 0.5 )",
      .setFilter "level" .median 3,
      .setValue "level" 2,
      .disable "double"]
    let restarted := Service.register (start EngineConfig.initial)
      (e.portConfigs.reverse.map fun config => (config, (none : Option Simulated)))
    e.portConfigs.map PortConfig.id = ["level", "double"] ∧
      e.portConfigs.map PortConfig.writeTransform = ["ADD($level, 0.5)", ""] ∧
      e.portConfigs.map PortConfig.value = [some 2, none] ∧
      restarted.portConfigs = e.portConfigs.reverse ∧
      ∀ id, restarted.portConfig? id = e.portConfig? id := by
  intro e restarted
  have hreachable : e.Reachable := (reachable_start _).run _
  have hports : (e.portConfigs.reverse.map fun config =>
      (config, (none : Option Simulated))).map Prod.fst = e.portConfigs.reverse := by
    rw [List.map_map]
    exact List.map_id _
  rcases Reachable.restart hreachable EngineConfig.initial _
    (hports ▸ List.reverse_perm e.portConfigs) with ⟨-, hconfigs, hfound, -⟩
  exact ⟨by decide +kernel, by decide +kernel, by decide +kernel, hconfigs.trans hports, hfound⟩

end Engine

end PortLogic
