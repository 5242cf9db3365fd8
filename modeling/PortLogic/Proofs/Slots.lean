import PortLogic.Number.Power
import PortLogic.Proofs.Registry
import PortLogic.Proofs.Stored

/-!
# PortLogic.Proofs.Slots — which slots are taken, and by which port

A registration fills the lowest free slot, a removal frees a slot and drops the free slots at the
end, and whatever else happens leaves every port in its slot. So the last slot is never free
(`Reachable.trimmed`), and a port keeps its slot until it is removed (`Reachable.run_slotOf?`).
Together with the index that leads to the slots, the ports of every reachable engine are registered
in good order (`registered_of_run`).
-/

namespace PortLogic

open Table

namespace Table

variable {δ : Type} {t u : Table δ} {slot other : Nat} {p : Port δ}

/-! ## The last slot -/

/-- The table does not end in a free slot. -/
def Trimmed (t : Table δ) : Prop :=
  t.slots.getLast? ≠ some none

theorem trimmed_empty : (empty : Table δ).Trimmed := nofun

theorem Trimmed.of_registrations (h : t.Trimmed) (heq : u.registrations = t.registrations) :
    u.Trimmed := by
  have hlast (t : Table δ) :
      t.registrations.getLast? = some none ↔ t.slots.getLast? = some none := by
    unfold registrations
    rw [List.getLast?_mapIdx]
    rcases t.slots.getLast? with _ | _ | p <;> simp
  intro hu
  exact h ((hlast t).mp (heq ▸ (hlast u).mpr hu))

theorem Trimmed.insert (h : t.Trimmed) (p : Port δ) : (t.insert slot p).Trimmed := by
  unfold Trimmed Table.insert
  split
  · rw [List.getLast?_eq_getElem?, List.getElem?_set, List.length_set]
    split
    · simp
    · rw [← List.getLast?_eq_getElem?]
      exact h
  · simp

theorem trimmed_free (t : Table δ) (slot : Nat) : (t.free slot).Trimmed := by
  unfold Trimmed free
  rw [List.getLast?_reverse]
  intro hfree
  have hkept := List.head?_dropWhile_not Option.isNone (t.slots.set slot none).reverse
  rw [hfree] at hkept
  cases hkept

/-! ## The free slot -/

/-- Every slot before the free one is taken. -/
theorem get?_of_lt_freeSlot? (h : t.freeSlot? = some slot) (hlt : other < slot) :
    (t.get? other).isSome = true := by
  have htaken (hlength : other < t.slots.length) (hentry : ¬t.slots[other].isNone = true) :
      (t.get? other).isSome = true := by
    rw [get?, List.getElem?_eq_getElem hlength, Option.join_some]
    simpa [Option.isSome_iff_ne_none] using hentry
  unfold freeSlot? at h
  split at h
  · next free hfree =>
    obtain rfl := Option.some.inj h
    rcases List.findIdx?_eq_some_iff_getElem.mp hfree with ⟨hlength, -, hbefore⟩
    exact htaken (Nat.lt_trans hlt hlength) (hbefore other hlt)
  · next hfull =>
    split at h
    · obtain rfl := Option.some.inj h
      refine htaken hlt ?_
      rw [List.findIdx?_eq_none_iff.mp hfull _ (List.getElem_mem hlt)]
      exact Bool.false_ne_true
    · cases h

/-- There is a free slot as long as fewer ports than the most are registered. -/
theorem isSome_freeSlot? (hlength : t.slots.length ≤ Triggers.maxPorts) :
    t.freeSlot?.isSome = true ↔ t.ports.length < Triggers.maxPorts := by
  have hports : t.ports.length ≤ t.slots.length := List.length_filterMap_le id t.slots
  have hfull : t.ports.length = t.slots.length ↔ ∀ entry ∈ t.slots, entry.isSome = true :=
    List.filterMap_length_eq_length
  unfold freeSlot?
  split
  · next free hfree =>
    rcases List.findIdx?_eq_some_iff_getElem.mp hfree with ⟨hlt, hnone, -⟩
    have hne : t.ports.length ≠ t.slots.length := by
      intro heq
      have hsome := hfull.mp heq _ (List.getElem_mem hlt)
      rw [Option.isNone_iff_eq_none.mp hnone] at hsome
      cases hsome
    exact ⟨fun _ => by omega, fun _ => rfl⟩
  · next hnone =>
    have heq : t.ports.length = t.slots.length := by
      refine hfull.mpr fun entry hmem => ?_
      rw [← Option.not_isNone, List.findIdx?_eq_none_iff.mp hnone entry hmem]
      rfl
    rw [heq]
    split
    · next hroom => exact ⟨fun _ => hroom, fun _ => rfl⟩
    · next hroom => exact ⟨nofun, fun h => absurd h hroom⟩

end Table

namespace Engine

section

variable {δ : Type} [Driver δ] {e : Engine δ} {id : String} {slot : Nat}

/-! ## Operations -/

variable [Power]

/-- The slots never end in a free one. -/
theorem Reachable.trimmed (h : e.Reachable) : e.table.Trimmed := by
  refine Reachable.induction (motive := fun e => e.table.Trimmed) ?_ ?_ h
  · intro config
    exact trimmed_empty
  intro e operation htrimmed
  have hkeeps (h : operation.KeepsPorts) : (e.perform operation).2.table.Trimmed :=
    htrimmed.of_registrations (h.registrations e)
  cases operation with
  | addPort config driver =>
    show (e.addPort config driver).2.table.Trimmed
    rcases addPort_cases e config driver with ⟨err, hadd⟩ | ⟨slot, -, -, -, hadd⟩
    · rw [hadd]
      exact htrimmed
    · rw [hadd]
      exact (htrimmed.insert _).of_registrations (registrations_refreshTriggers _)
  | unregister id =>
    show (e.unregister id).2.table.Trimmed
    rcases unregister_cases e id with ⟨err, hun⟩ | ⟨slot, p, -, -, hun⟩
    · rw [hun]
      exact htrimmed
    · rw [hun]
      exact (trimmed_free _ slot).of_registrations (registrations_refreshTriggers _)
  | _ => exact hkeeps trivial

/-- A port stays in its slot, unless it is removed. -/
theorem perform_slotOf? (h : e.table.Wired) (operation : Operation δ)
    (hfound : e.table.slotOf? id = some slot) :
    (e.perform operation).2.table.slotOf? id = some slot ∨
      operation = .unregister id ∧ (e.unregister id).1 = .ok () := by
  have hafter := (perform_wired h operation).distinct
  have hkeeps (h : operation.KeepsPorts) :
      (e.perform operation).2.table.slotOf? id = some slot := by
    rwa [h.slotOf? e]
  cases operation with
  | addPort config driver =>
    refine Or.inl ?_
    show (e.addPort config driver).2.table.slotOf? id = some slot
    rcases addPort_cases e config driver with ⟨err, hadd⟩ | ⟨free, -, -, hfree, hadd⟩
    · rw [hadd]
      exact hfound
    rcases freeSlot?_eq_some hfree h.small with ⟨hle, -, hempty⟩
    have hne : free ≠ slot := by
      rintro rfl
      rcases slotOf?_eq_some hfound with ⟨p, hget, -⟩
      rw [hempty] at hget
      cases hget
    change (e.addPort config driver).2.table.Distinct at hafter
    rw [hadd] at hafter ⊢
    exact ((insert_replaces _ hle).slotOf?_iff h.distinct hafter).mpr (by rwa [if_neg hne])
  | unregister name =>
    change (e.unregister name).2.table.Distinct at hafter
    show (e.unregister name).2.table.slotOf? id = some slot ∨ _
    rcases unregister_cases e name with ⟨err, hun⟩ | ⟨freed, p, hentry, -, hun⟩
    · rw [hun]
      exact Or.inl hfound
    rcases entry?_eq_some hentry with ⟨-, hget, rfl⟩
    by_cases hid : id = p.id
    · subst hid
      exact Or.inr ⟨rfl, by rw [hun]⟩
    · refine Or.inl ?_
      rw [hun] at hafter ⊢
      refine ((free_replaces e.table freed).slotOf?_free h.distinct hafter hget id).trans ?_
      rwa [if_neg hid]
  | _ => exact Or.inl (hkeeps trivial)

/-- A port stays in its slot during a run that does not remove it. -/
theorem Reachable.run_slotOf? (h : e.Reachable) (hfound : e.table.slotOf? id = some slot)
    (operations : List (Operation δ))
    (hstays : ∀ before after, operations = before ++ .unregister id :: after →
      ((e.run before).unregister id).1 ≠ .ok ()) :
    (e.run operations).table.slotOf? id = some slot := by
  induction operations using List.reverseRecOn with
  | nil => exact hfound
  | append_singleton rest operation ih =>
    have hrest : (e.run rest).table.slotOf? id = some slot := by
      refine ih ?_
      rintro before after rfl
      exact hstays before (after ++ [operation]) (List.append_assoc ..)
    rw [run_append_singleton]
    rcases perform_slotOf? (h.run rest).wired operation hrest with hkept | ⟨rfl, hremoved⟩
    · exact hkept
    · exact absurd hremoved (hstays rest [] rfl)

/-! ## Well-formed registries -/

/-- The ports of an engine are registered in good order, and the registry tells where. -/
structure Registered (e : Engine δ) (r : Registry) : Prop where
  /-- The registry has the ports of the table in their slots. -/
  slots : r.slots = e.table.registrations
  /-- The index leads where a search of the table leads. -/
  found : ∀ id, r.slotOf? id = e.table.slotOf? id
  /-- The index leads to a slot exactly when that holds a port of the identifier, with the number of
  the slot. -/
  indexed : ∀ id slot, r.slotOf? id = some slot ↔
    ∃ p, r.get? slot = some p ∧ p.id = id ∧ p.slot = slot
  /-- A registration has the number of the slot that it stands in. -/
  numbered : ∀ slot p, r.get? slot = some p → p.slot = slot
  distinct : e.table.Distinct
  valid : ∀ slot p, e.table.get? slot = some p → PortId.isValid p.id.toList = true
  small : e.table.slots.length ≤ Triggers.maxPorts
  /-- The last slot is taken. -/
  trimmed : e.table.Trimmed
  /-- A registration under a valid new identifier works as long as there is room. -/
  accepts : ∀ config driver, PortId.isValid config.id.toList = true →
    e.table.find? config.id = none →
    ((e.addPort config driver).1 = .ok () ↔ e.table.ports.length < Triggers.maxPorts)
  /-- A new port takes the lowest slot that is not in use. -/
  lowest : ∀ config driver, (e.addPort config driver).1 = .ok () →
    ∃ slot, (e.addPort config driver).2.table.slotOf? config.id = some slot ∧
      e.table.get? slot = none ∧ ∀ lower < slot, (e.table.get? lower).isSome = true
  /-- A port keeps its slot in every run that does not remove it. -/
  keeps : ∀ id slot operations, e.table.slotOf? id = some slot →
    (∀ before after, operations = before ++ .unregister id :: after →
      ((e.run before).unregister id).1 ≠ .ok ()) →
    (e.run operations).table.slotOf? id = some slot

/-- A new port of a reachable engine is found in the lowest slot that was free. -/
theorem Reachable.slotOf?_addPort (h : e.Reachable) {config : PortConfig} {driver : Option δ}
    (hok : (e.addPort config driver).1 = .ok ()) :
    ∃ slot, (e.addPort config driver).2.table.slotOf? config.id = some slot ∧
      e.table.get? slot = none ∧ ∀ lower < slot, (e.table.get? lower).isSome = true := by
  have hafter := (addPort_wired h.wired config driver).distinct
  rcases addPort_cases e config driver with ⟨err, hadd⟩ | ⟨slot, -, hnew, hfree, hadd⟩
  · rw [hadd] at hok
    cases hok
  rcases freeSlot?_eq_some hfree h.wired.small with ⟨hle, -, hempty⟩
  refine ⟨slot, ?_, hempty, fun _ => get?_of_lt_freeSlot? hfree⟩
  rw [hadd] at hafter ⊢
  have hnone : e.table.slotOf? (e.portOf config driver).id = none := by
    rw [portOf_id]
    exact find?_eq_none.mp hnew
  refine ((insert_replaces _ hle).slotOf?_insert h.wired.distinct hafter hempty hnone _).trans ?_
  rw [portOf_id, if_pos rfl]

/-- After every run the ports are registered in good order, with the registry that follows from the
operations. -/
theorem registered_of_run (config : EngineConfig) (operations : List (Operation δ)) :
    ((start config : Engine δ).run operations).Registered (Registry.after operations) := by
  have hreachable := (reachable_start (δ := δ) config).run operations
  have hindexes := indexes_of_run config operations
  generalize (start config : Engine δ).run operations = e at hreachable hindexes
  generalize Registry.after operations = r at hindexes
  have hwired := hreachable.wired
  have hport {slot : Nat} {p : Registration} (hget : r.get? slot = some p) :
      ∃ q, e.table.get? slot = some q ∧ p = q.registration slot := by
    rw [hindexes.get?] at hget
    rcases Option.map_eq_some_iff.mp hget with ⟨q, hq, heq⟩
    exact ⟨q, hq, heq.symm⟩
  constructor
  case slots => exact hindexes.slots
  case found => exact hindexes.slotOf?
  case indexed =>
    intro id slot
    rw [hindexes.slotOf?, hwired.distinct.slotOf?_iff]
    constructor
    · rintro ⟨p, hget, rfl⟩
      exact ⟨p.registration slot, by rw [hindexes.get?, hget, Option.map_some], rfl, rfl⟩
    · rintro ⟨p, hget, rfl, -⟩
      rcases hport hget with ⟨q, hq, rfl⟩
      exact ⟨q, hq, rfl⟩
  case numbered =>
    intro slot p hget
    rcases hport hget with ⟨q, -, rfl⟩
    rfl
  case distinct => exact hwired.distinct
  case valid =>
    intro slot p hget
    exact (hreachable.stored hget).id
  case small => exact hwired.small
  case trimmed => exact hreachable.trimmed
  case accepts =>
    intro config driver hvalid hnew
    rw [addPort_eq_ok_iff, isSome_freeSlot? hwired.small]
    exact ⟨fun h => h.2.2, fun h => ⟨hvalid, hnew, h⟩⟩
  case lowest =>
    intro config driver hok
    exact hreachable.slotOf?_addPort hok
  case keeps =>
    intro id slot operations hfound hstays
    exact hreachable.run_slotOf? hfound operations hstays

end

attribute [local instance] Power.rounded

/-- The slots of `b` and `c` are freed in the middle; `d` takes both and its own along when it goes.
Then the slot of `b` is used again, and that of `a`. -/
theorem registered_after_reuse :
    let operations : List (Operation Simulated) := [
      .addPort (PortConfig.virtualOutput "a") none,
      .addPort (PortConfig.virtualOutput "b") none,
      .addPort (PortConfig.virtualOutput "c") none,
      .addPort (PortConfig.virtualOutput "d") none,
      .unregister "b",
      .unregister "c",
      .unregister "d",
      .addPort (PortConfig.virtualOutput "c") none,
      .unregister "a",
      .addPort (PortConfig.virtualOutput "e") none]
    let e := (start EngineConfig.initial).run operations
    let r := Registry.after operations
    r.slots = [some ⟨"e", 0, true⟩, some ⟨"c", 1, true⟩] ∧ r.slotOf? "c" = some 1 ∧
      r.slotOf? "a" = none ∧ e.Registered r := by
  intro operations e r
  exact ⟨by decide +kernel, by decide +kernel, by decide +kernel, registered_of_run _ operations⟩

end Engine

end PortLogic
