import Mathlib.Data.List.AList
import PortLogic.Proofs.History

/-!
# PortLogic.Proofs.Registry — slots and an index kept apart

The table finds a port under its identifier by a search. The registry is the same table as it can be
kept without searching: the slots are a list that grows at the end and shrinks when its last ports
go, each port knows the number of its slot, and an index leads from identifiers to slots. Every
registration and every removal changes slots and index apart from each other, and decides by what
these two hold. After every run the registry has the slots of the engine's table, and its index
leads where a search of the table leads (`indexes_of_run`).
-/

namespace PortLogic

open Table

/-- What the registry knows of a port. -/
structure Registration where
  id : String
  /-- The slot that the port was given. -/
  slot : Nat
  isVirtual : Bool
deriving DecidableEq

/-- The slots, each free or with a registration, and the slots by identifier. -/
structure Registry where
  slots : List (Option Registration)
  index : AList fun _ : String => Nat

namespace Registry

/-- A registry without ports. -/
def empty : Registry := ⟨[], ∅⟩

/-- The registration in a slot. -/
def get? (r : Registry) (slot : Nat) : Option Registration :=
  r.slots[slot]?.join

/-- The slot of an identifier, by the index. -/
def slotOf? (r : Registry) (id : String) : Option Nat :=
  r.index.lookup id

/-- The registration of an identifier, by the index. -/
def find? (r : Registry) (id : String) : Option Registration :=
  (r.slotOf? id).bind r.get?

/-- The lowest free slot, the one past the end when none before it is free. -/
def freeSlot? (r : Registry) : Option Nat :=
  (r.slots.findIdx? Option.isNone).or
    (if r.slots.length < Triggers.maxPorts then some r.slots.length else none)

/-- Stores a registration in its slot and indexes it. -/
def insert (r : Registry) (p : Registration) : Registry where
  -- the list grows up to the slot first, when it is shorter
  slots := (r.slots.rightpad (p.slot + 1) none).set p.slot (some p)
  index := r.index.insert p.id p.slot

/-- Takes an identifier from the index and frees its slot. -/
def remove (r : Registry) (id : String) : Registry :=
  match r.slotOf? id with
  | none => r
  | some slot =>
    -- the slots that are free at the end go with it
    { slots := ((r.slots.set slot none).reverse.dropWhile Option.isNone).reverse
      index := r.index.erase id }

/-! ## Operations -/

/-- Registers a port in the lowest free slot, when its identifier is valid and new. -/
def addPort (r : Registry) (config : PortConfig) : Registry :=
  if !PortId.isValid config.id.toList then r
  else if (r.find? config.id).isSome then r
  else
    match r.freeSlot? with
    | none => r
    | some slot => r.insert ⟨config.id, slot, config.isVirtual⟩

/-- Removes a virtual port. -/
def unregister (r : Registry) (id : String) : Registry :=
  match r.find? id with
  | none => r
  | some p => if !p.isVirtual then r else r.remove id

/-- What an operation changes. -/
def perform {δ : Type} (r : Registry) : Engine.Operation δ → Registry
  | .addPort config _ => r.addPort config
  | .unregister id => r.unregister id
  | _ => r

/-- The registry after a list of operations. -/
def after {δ : Type} (operations : List (Engine.Operation δ)) : Registry :=
  operations.foldl perform empty

end Registry

/-! ## The registrations of a table -/

variable {δ : Type}

/-- What the registry knows of the port in a slot. -/
def Port.registration (slot : Nat) (p : Port δ) : Registration :=
  ⟨p.id, slot, p.isVirtual⟩

theorem Port.Move.registration {p q : Port δ} (h : p.Move q) (slot : Nat) :
    q.registration slot = p.registration slot := by
  cases h with
  | acknowledge =>
    rcases p.acknowledge_eq with ⟨_, _, heq⟩
    rw [heq]
    rfl
  | _ => rfl

namespace Table

variable {t u : Table δ} {slot other : Nat} {id : String} {p : Port δ}

/-- The slots of a table as the registry has them. -/
def registrations (t : Table δ) : List (Option Registration) :=
  t.slots.mapIdx fun slot entry => entry.map (Port.registration slot)

@[simp]
theorem length_registrations (t : Table δ) : t.registrations.length = t.slots.length :=
  List.length_mapIdx

theorem getElem?_registrations (t : Table δ) (slot : Nat) :
    t.registrations[slot]?.join = (t.get? slot).map (Port.registration slot) := by
  unfold registrations get?
  rw [List.getElem?_mapIdx]
  rcases t.slots[slot]? with _ | _ | p <;> rfl

/-- The registrations tell nothing but identifiers and what is virtual, slot by slot. -/
theorem registrations_congr (hlength : u.slots.length = t.slots.length)
    (h : ∀ slot, (u.get? slot).map (Port.registration slot) =
      (t.get? slot).map (Port.registration slot)) : u.registrations = t.registrations := by
  have hjoin (slot : Nat) : u.registrations[slot]?.join = t.registrations[slot]?.join := by
    rw [getElem?_registrations, getElem?_registrations, h slot]
  refine List.ext_getElem (by simpa using hlength) ?_
  intro slot hu ht
  have hentry := hjoin slot
  rwa [List.getElem?_eq_getElem hu, List.getElem?_eq_getElem ht] at hentry

theorem registrations_map {f : Port δ → Port δ}
    (hf : ∀ slot p, (f p).registration slot = p.registration slot) :
    (t.map f).registrations = t.registrations := by
  refine registrations_congr (length_map t f) ?_
  intro slot
  rw [get?_map, Option.map_map]
  exact congrArg (fun g => Option.map g (t.get? slot)) (funext (hf slot))

@[simp]
theorem registrations_refreshTriggers (t : Table δ) :
    t.refreshTriggers.registrations = t.registrations :=
  registrations_map fun _ _ => rfl

theorem registrations_insert (p : Port δ) (h : slot ≤ t.slots.length) :
    (t.insert slot p).registrations =
      (t.registrations.rightpad (slot + 1) none).set slot (some (p.registration slot)) := by
  unfold insert List.rightpad
  rw [length_registrations]
  rcases Nat.lt_or_eq_of_le h with hlt | rfl
  · rw [if_pos hlt, show slot + 1 - t.slots.length = 0 by omega, List.replicate_zero,
      List.append_nil]
    exact List.mapIdx_set
  · -- a table that is full up to its end grows by the slot
    rw [if_neg (Nat.lt_irrefl _), Nat.sub_self, Nat.add_sub_cancel_left, List.replicate_zero,
      List.append_nil, List.set_append_right _ _ (length_registrations t).le, length_registrations,
      Nat.sub_self]
    exact List.mapIdx_concat

/-- As many registrations as slots are dropped from the end, because both are free at the same
places. -/
theorem registrations_dropWhile (entries : List (Option (Port δ))) :
    registrations ⟨(entries.reverse.dropWhile Option.isNone).reverse⟩ =
      ((registrations ⟨entries⟩).reverse.dropWhile Option.isNone).reverse := by
  induction entries using List.reverseRecOn with
  | nil => rfl
  | append_singleton rest last ih =>
    unfold registrations at ih ⊢
    rw [List.mapIdx_concat, List.reverse_append, List.reverse_append, List.reverse_singleton,
      List.reverse_singleton, List.singleton_append, List.singleton_append, List.dropWhile_cons,
      List.dropWhile_cons]
    cases last with
    | none => exact ih
    | some p => simp

theorem registrations_free (t : Table δ) (slot : Nat) :
    (t.free slot).registrations =
      ((t.registrations.set slot none).reverse.dropWhile Option.isNone).reverse := by
  have hset : registrations ⟨t.slots.set slot none⟩ = t.registrations.set slot none :=
    List.mapIdx_set
  unfold free
  rw [registrations_dropWhile, hset]

/-- Moves leave every port under its identifier, and virtual or not. -/
theorem Moves.registrations (h : t.Moves u) : u.registrations = t.registrations := by
  refine registrations_congr h.length ?_
  intro slot
  have hport := h.port slot
  generalize t.get? slot = before at hport
  generalize u.get? slot = after at hport
  cases hport with
  | none => rfl
  | @some p q hmoves =>
    have hkept := hmoves.keep (motive := fun r => r.registration slot = p.registration slot)
      (fun hmove hq => (hmove.registration slot).trans hq) rfl
    exact congrArg some hkept

theorem findIdx?_registrations (t : Table δ) :
    t.registrations.findIdx? Option.isNone = t.slots.findIdx? Option.isNone := by
  have hvacant : t.registrations.map Option.isNone = t.slots.map Option.isNone := by
    refine List.ext_getElem (by simp) ?_
    intro slot hleft hright
    simp [registrations]
  have hfind {α : Type} (entries : List (Option α)) :
      (entries.map Option.isNone).findIdx? id = entries.findIdx? Option.isNone :=
    List.findIdx?_map
  rw [← hfind, hvacant, hfind]

/-! ## Searches -/

/-- In a table with distinct identifiers the search finds the one slot that holds the identifier. -/
theorem Distinct.slotOf?_iff (h : t.Distinct) :
    t.slotOf? id = some slot ↔ ∃ p, t.get? slot = some p ∧ p.id = id := by
  constructor
  · exact slotOf?_eq_some
  · rintro ⟨p, hget, rfl⟩
    exact h.slotOf? hget

/-- Where identifiers are found after the entry of a slot is replaced. -/
theorem Replaces.slotOf?_iff {entry : Option (Port δ)} (h : t.Replaces slot entry u)
    (ht : t.Distinct) (hu : u.Distinct) :
    u.slotOf? id = some other ↔
      if slot = other then ∃ p, entry = some p ∧ p.id = id else t.slotOf? id = some other := by
  rw [hu.slotOf?_iff, ht.slotOf?_iff]
  rcases h other with ⟨triggers, hget⟩
  rw [hget]
  split
  · simp
  · simp

/-- A new identifier leads to the slot that it was put into, and every other one to its slot as
before. -/
theorem Replaces.slotOf?_insert (h : t.Replaces slot (some p) u) (ht : t.Distinct) (hu : u.Distinct)
    (hfree : t.get? slot = none) (hnew : t.slotOf? p.id = none) (id : String) :
    u.slotOf? id = if id = p.id then some slot else t.slotOf? id := by
  refine Option.ext fun other => ?_
  rw [h.slotOf?_iff ht hu]
  by_cases hid : id = p.id
  · subst hid
    by_cases hslot : slot = other
    · simp [hslot]
    · simp [hslot, hnew]
  · rw [if_neg hid]
    split
    · next heq =>
      subst heq
      rw [ht.slotOf?_iff, hfree]
      simp [Ne.symm hid]
    · rfl

/-- An identifier that goes leads nowhere any more, and every other one to its slot as before. -/
theorem Replaces.slotOf?_free (h : t.Replaces slot none u) (ht : t.Distinct) (hu : u.Distinct)
    (hget : t.get? slot = some p) (id : String) :
    u.slotOf? id = if id = p.id then none else t.slotOf? id := by
  refine Option.ext fun other => ?_
  rw [h.slotOf?_iff ht hu, ht.slotOf?_iff]
  by_cases hslot : slot = other
  · subst hslot
    by_cases hid : id = p.id
    · simp [hid]
    · simp [hid, ht.slotOf?_iff, hget, Ne.symm hid]
  · by_cases hid : id = p.id
    · subst hid
      rw [if_neg hslot, if_pos rfl]
      refine ⟨?_, nofun⟩
      rintro ⟨q, hq, hid⟩
      exact absurd (ht hget hq hid.symm) hslot
    · rw [if_neg hslot, if_neg hid, ht.slotOf?_iff]

end Table

namespace Registry

variable {r : Registry} {t u : Table δ} {slot : Nat} {id : String} {p : Port δ}

/-! ## Registrations and removals -/

/-- A registration is refused, or goes into the free slot. -/
theorem addPort_cases (r : Registry) (config : PortConfig) :
    (r.addPort config = r ∧ ¬(PortId.isValid config.id.toList = true ∧
        r.find? config.id = none ∧ r.freeSlot?.isSome = true)) ∨
      ∃ slot, PortId.isValid config.id.toList = true ∧ r.find? config.id = none ∧
        r.freeSlot? = some slot ∧
        r.addPort config = r.insert ⟨config.id, slot, config.isVirtual⟩ := by
  unfold addPort
  split
  · next hinvalid =>
    refine Or.inl ⟨rfl, fun h => ?_⟩
    rw [h.1] at hinvalid
    cases hinvalid
  next hvalid =>
  rw [Bool.not_eq_true, Bool.not_eq_false'] at hvalid
  split
  · next htaken =>
    refine Or.inl ⟨rfl, fun h => ?_⟩
    rw [h.2.1] at htaken
    cases htaken
  next hnew =>
  rw [Option.not_isSome_iff_eq_none] at hnew
  split
  · next hfull =>
    refine Or.inl ⟨rfl, fun h => ?_⟩
    rw [hfull] at h
    cases h.2.2
  · next slot hfree => exact Or.inr ⟨slot, hvalid, hnew, hfree, rfl⟩

/-- A removal is refused, or takes a virtual port. -/
theorem unregister_cases (r : Registry) (id : String) :
    (r.unregister id = r ∧ ¬∃ p, r.find? id = some p ∧ p.isVirtual = true) ∨
      ∃ p, r.find? id = some p ∧ p.isVirtual = true ∧ r.unregister id = r.remove id := by
  unfold unregister
  split
  · next hmissing => exact Or.inl ⟨rfl, by simp [hmissing]⟩
  next p hfound =>
  split
  · next hkept => exact Or.inl ⟨rfl, by simpa [hfound] using hkept⟩
  · next hvirtual => exact Or.inr ⟨p, hfound, by simpa using hvirtual, rfl⟩

theorem slotOf?_insert (r : Registry) (p : Registration) (id : String) :
    (r.insert p).slotOf? id = if id = p.id then some p.slot else r.slotOf? id := by
  unfold slotOf? insert
  split
  · next heq => rw [heq, AList.lookup_insert]
  · next hne => rw [AList.lookup_insert_ne hne]

theorem remove_of_slotOf? (h : r.slotOf? id = some slot) :
    r.remove id = ⟨((r.slots.set slot none).reverse.dropWhile Option.isNone).reverse,
      r.index.erase id⟩ := by
  unfold remove
  rw [h]

theorem slotOf?_remove (h : r.slotOf? id = some slot) (other : String) :
    (r.remove id).slotOf? other = if other = id then none else r.slotOf? other := by
  rw [remove_of_slotOf? h]
  unfold slotOf?
  split
  · next heq => rw [heq, AList.lookup_erase]
  · next hne => rw [AList.lookup_erase_ne hne]

/-! ## The registry of a table -/

/-- The registry has the slots of the table, and its index leads where a search of the table
leads. -/
structure Indexes (r : Registry) (t : Table δ) : Prop where
  slots : r.slots = t.registrations
  slotOf? : ∀ id, r.slotOf? id = t.slotOf? id

theorem indexes_empty : empty.Indexes (Table.empty : Table δ) where
  slots := rfl
  slotOf? _ := AList.lookup_empty _

theorem Indexes.congr (h : r.Indexes t) (hslots : u.registrations = t.registrations)
    (hslotOf : u.slotOf? = t.slotOf?) : r.Indexes u where
  slots := h.slots.trans hslots.symm
  slotOf? id := by rw [h.slotOf? id, hslotOf]

theorem Indexes.get? (h : r.Indexes t) (slot : Nat) :
    r.get? slot = (t.get? slot).map (Port.registration slot) := by
  rw [Registry.get?, h.slots, getElem?_registrations]

theorem Indexes.freeSlot? (h : r.Indexes t) : r.freeSlot? = t.freeSlot? := by
  unfold Registry.freeSlot? Table.freeSlot?
  rw [h.slots, findIdx?_registrations, length_registrations]
  cases t.slots.findIdx? Option.isNone <;> rfl

/-- What is found under an identifier is the registration of the port that the table finds. -/
theorem Indexes.find? (h : r.Indexes t) (id : String) :
    r.find? id = (t.slotOf? id).bind fun slot => (t.get? slot).map (Port.registration slot) := by
  unfold Registry.find?
  rw [h.slotOf? id]
  exact congrArg _ (funext h.get?)

theorem Indexes.find?_eq_none (h : r.Indexes t) : r.find? id = none ↔ t.find? id = none := by
  rw [h.find?, Table.find?]
  cases t.slotOf? id with
  | none => exact ⟨fun _ => rfl, fun _ => rfl⟩
  | some slot => exact Option.map_eq_none_iff

/-- Putting a port of a new identifier into a free slot keeps registry and table alike. -/
theorem Indexes.insert (h : r.Indexes t) (ht : t.Distinct)
    (hu : (t.insert slot p).refreshTriggers.Distinct) (hle : slot ≤ t.slots.length)
    (hfree : t.get? slot = none) (hnew : t.slotOf? p.id = none) :
    (r.insert (p.registration slot)).Indexes (t.insert slot p).refreshTriggers where
  slots := by
    rw [registrations_refreshTriggers, registrations_insert p hle, ← h.slots]
    rfl
  slotOf? id := by
    rw [slotOf?_insert, h.slotOf? id]
    exact ((insert_replaces p hle).slotOf?_insert ht hu hfree hnew id).symm

/-- Removing an identifier frees the slot that it leads to. -/
theorem Indexes.remove (h : r.Indexes t) (ht : t.Distinct)
    (hu : (t.free slot).refreshTriggers.Distinct) (hget : t.get? slot = some p) :
    (r.remove p.id).Indexes (t.free slot).refreshTriggers := by
  have hfound : r.slotOf? p.id = some slot := (h.slotOf? p.id).trans (ht.slotOf? hget)
  constructor
  · rw [remove_of_slotOf? hfound, registrations_refreshTriggers, registrations_free, ← h.slots]
  · intro id
    rw [slotOf?_remove hfound, h.slotOf? id]
    exact ((free_replaces t slot).slotOf?_free ht hu hget id).symm

end Registry

/-! ## Runs -/

namespace Engine

variable {e : Engine δ} {r : Registry}

theorem addPort_indexes (hwired : e.table.Wired) (h : r.Indexes e.table) (config : PortConfig)
    (driver : Option δ) : (r.addPort config).Indexes (e.addPort config driver).2.table := by
  have hafter := (addPort_wired hwired config driver).distinct
  have hok : (e.addPort config driver).1 = .ok () ↔ PortId.isValid config.id.toList = true ∧
      r.find? config.id = none ∧ r.freeSlot?.isSome = true := by
    rw [addPort_eq_ok_iff, h.find?_eq_none, h.freeSlot?]
  -- both decide by the same three conditions, so both refuse the port or both accept it
  rcases addPort_cases e config driver with ⟨err, hadd⟩ | ⟨slot, hvalid, hnew, hfree, hadd⟩
  · rcases r.addPort_cases config with ⟨hkept, -⟩ | ⟨slot, hvalid, hnew, hfree, -⟩
    · rw [hadd, hkept]
      exact h
    · have hroom : r.freeSlot?.isSome = true := Option.isSome_iff_exists.mpr ⟨slot, hfree⟩
      have haccepted := hok.mpr ⟨hvalid, hnew, hroom⟩
      rw [hadd] at haccepted
      cases haccepted
  · rcases r.addPort_cases config with ⟨-, hrefused⟩ | ⟨slot', -, -, hfree', hadded⟩
    · exact absurd (hok.mp (by rw [hadd])) hrefused
    rw [h.freeSlot?, hfree] at hfree'
    obtain rfl := Option.some.inj hfree'
    rcases freeSlot?_eq_some hfree hwired.small with ⟨hle, -, hempty⟩
    have hregistration : (e.portOf config driver).registration slot =
        ⟨config.id, slot, config.isVirtual⟩ := by
      rcases portOf_cases e config driver with ⟨_, _, hport, -⟩
      rw [hport]
      rfl
    rw [hadd] at hafter ⊢
    rw [hadded, ← hregistration]
    refine h.insert hwired.distinct hafter hle hempty ?_
    rw [portOf_id]
    exact find?_eq_none.mp hnew

theorem unregister_indexes (hwired : e.table.Wired) (h : r.Indexes e.table) (id : String) :
    (r.unregister id).Indexes (e.unregister id).2.table := by
  have hafter := (unregister_wired hwired id).distinct
  have hfind {slot : Nat} {p : Port δ} (hentry : e.entry? id = some (slot, p)) :
      r.find? id = some (p.registration slot) := by
    rcases entry?_eq_some hentry with ⟨hslot, hget, -⟩
    rw [h.find?, hslot, Option.bind_some, hget, Option.map_some]
  rcases unregister_cases e id with ⟨err, hun⟩ | ⟨slot, p, hentry, hvirtual, hun⟩
  · rcases r.unregister_cases id with ⟨hkept, -⟩ | ⟨q, hfound, hvirtual, -⟩
    · rw [hun, hkept]
      exact h
    · -- the port behind the registration is virtual as well, so the removal would have worked
      have hsome : e.table.find? id ≠ none := by
        rw [ne_eq, ← h.find?_eq_none, hfound]
        exact nofun
      rcases Option.ne_none_iff_exists'.mp hsome with ⟨p, hp⟩
      rcases exists_entry? hp with ⟨slot, hentry⟩
      rw [hfind hentry] at hfound
      obtain rfl := Option.some.inj hfound
      have haccepted := unregister_eq_ok_iff.mpr ⟨slot, p, hentry, hvirtual⟩
      rw [hun] at haccepted
      cases haccepted
  · rcases r.unregister_cases id with ⟨-, hrefused⟩ | ⟨-, -, -, hremoved⟩
    · exact absurd ⟨_, hfind hentry, hvirtual⟩ hrefused
    · rcases entry?_eq_some hentry with ⟨-, hget, rfl⟩
      rw [hun] at hafter ⊢
      rw [hremoved]
      exact h.remove hwired.distinct hafter hget

variable [Driver δ] [Power] {operation : Operation δ}

/-- Whatever registers and removes no port leaves every port in its slot, under its identifier. -/
theorem Operation.KeepsPorts.registrations (h : operation.KeepsPorts) (e : Engine δ) :
    (e.perform operation).2.table.registrations = e.table.registrations := by
  have hinPlace (h : operation.InPlace) :
      (e.perform operation).2.table.registrations = e.table.registrations :=
    (perform_moves e h).registrations
  cases operation with
  | addPort config driver => exact h.elim
  | unregister id => exact h.elim
  | takeDirtyConfigs now force =>
    show (e.takeDirtyConfigs now force).2.table.registrations = _
    unfold Engine.takeDirtyConfigs
    split
    · rfl
    · exact registrations_map fun _ _ => rfl
  | _ => exact hinPlace trivial

/-- Every operation does to the registry what it does to the table. -/
theorem perform_indexes (hwired : e.table.Wired) (h : r.Indexes e.table)
    (operation : Operation δ) : (r.perform operation).Indexes (e.perform operation).2.table := by
  have hkeeps (hkeeps : operation.KeepsPorts) : r.Indexes (e.perform operation).2.table :=
    h.congr (hkeeps.registrations e) (hkeeps.slotOf? e)
  cases operation with
  | addPort config driver => exact addPort_indexes hwired h config driver
  | unregister id => exact unregister_indexes hwired h id
  | _ => exact hkeeps trivial

/-- The registry after a run is that of the table. -/
theorem indexes_of_run (config : EngineConfig) (operations : List (Operation δ)) :
    (Registry.after operations).Indexes ((start config : Engine δ).run operations).table := by
  induction operations using List.reverseRecOn with
  | nil => exact Registry.indexes_empty
  | append_singleton rest operation ih =>
    have hwired := ((reachable_start (δ := δ) config).run rest).wired
    unfold Registry.after at ih ⊢
    rw [List.foldl_append, run_append_singleton]
    exact perform_indexes hwired ih operation

end Engine

end PortLogic
