import Mathlib.Data.List.Forall2
import Mathlib.Data.List.Induction
import PortLogic.Proofs.Triggers
import PortLogic.Table

/-!
# PortLogic.Proofs.Table — the port table by its slots

The view of a table is `get?`: what each operation does to it, and what the searches by identifier
find in it. In a table with distinct identifiers (`Distinct`) a port is found under its identifier
in the slot it stands in.
-/

namespace PortLogic

namespace Table

variable {δ : Type} {t u : Table δ} {slot other : Nat} {id : String} {p q : Port δ}

/-! ## Operations -/

@[simp]
theorem get?_empty (slot : Nat) : (empty : Table δ).get? slot = none := by
  simp [empty, get?]

theorem get?_eq_some : t.get? slot = some p ↔ t.slots[slot]? = some (some p) :=
  Option.join_eq_some_iff

theorem lt_length_of_get? (h : t.get? slot = some p) : slot < t.slots.length :=
  (List.getElem?_eq_some_iff.mp (get?_eq_some.mp h)).1

@[simp]
theorem get?_map (t : Table δ) (f : Port δ → Port δ) (slot : Nat) :
    (t.map f).get? slot = (t.get? slot).map f := by
  unfold get? map
  rw [List.getElem?_map]
  rcases t.slots[slot]? with _ | _ | p <;> rfl

@[simp]
theorem get?_modify (t : Table δ) (slot : Nat) (f : Port δ → Port δ) (other : Nat) :
    (t.modify slot f).get? other =
      if slot = other then (t.get? other).map f else t.get? other := by
  unfold get? modify
  rw [List.getElem?_modify]
  by_cases h : slot = other
  · rw [if_pos h]
    rcases t.slots[other]? with _ | _ | p <;> simp [h]
  · simp [h]

@[simp]
theorem length_map (t : Table δ) (f : Port δ → Port δ) :
    (t.map f).slots.length = t.slots.length :=
  List.length_map _

@[simp]
theorem length_modify (t : Table δ) (slot : Nat) (f : Port δ → Port δ) :
    (t.modify slot f).slots.length = t.slots.length :=
  List.length_modify ..

@[simp]
theorem length_refreshTriggers (t : Table δ) :
    t.refreshTriggers.slots.length = t.slots.length :=
  length_map t _

theorem get?_insert (p : Port δ) (h : slot ≤ t.slots.length) (other : Nat) :
    (t.insert slot p).get? other = if slot = other then some p else t.get? other := by
  unfold insert get?
  by_cases hlt : slot < t.slots.length
  · rw [if_pos hlt, List.getElem?_set]
    by_cases ho : slot = other
    · subst ho
      simp [hlt]
    · simp [ho]
  · -- the slot is the first one past the end
    have heq : slot = t.slots.length := by omega
    rw [if_neg hlt, heq, Nat.sub_self, List.replicate_zero, List.append_nil,
      List.getElem?_append]
    by_cases ho : other < t.slots.length
    · rw [if_pos ho, if_neg (by omega)]
    · rw [if_neg ho]
      by_cases hend : t.slots.length = other
      · subst hend
        simp
      · rw [if_neg hend, List.getElem?_eq_none (by simp; omega),
          List.getElem?_eq_none (by omega)]

theorem length_insert_le (p : Port δ) {n : Nat} (h : t.slots.length ≤ n) (hslot : slot < n) :
    (t.insert slot p).slots.length ≤ n := by
  unfold insert
  split
  · simpa using h
  · simp only [List.length_append, List.length_replicate, List.length_singleton]
    omega

/-- Dropping free slots from the end keeps what every slot holds. -/
theorem getElem?_join_dropWhile {α : Type} (entries : List (Option α)) (i : Nat) :
    ((entries.reverse.dropWhile Option.isNone).reverse)[i]?.join = entries[i]?.join := by
  induction entries using List.reverseRecOn with
  | nil => rfl
  | append_singleton rest last ih =>
    rw [List.reverse_append, List.reverse_singleton, List.singleton_append, List.dropWhile_cons]
    cases last with
    | some a => simp
    | none =>
      -- the dropped entry held nothing, as every place past the end does
      rw [Option.isNone_none, if_pos rfl, ih, List.getElem?_append]
      by_cases h : i < rest.length
      · rw [if_pos h]
      · rw [if_neg h, List.getElem?_eq_none (by omega)]
        rcases i - rest.length with _ | n <;> simp

theorem get?_free (t : Table δ) (slot other : Nat) :
    (t.free slot).get? other = if slot = other then none else t.get? other := by
  unfold free get?
  rw [getElem?_join_dropWhile, List.getElem?_set]
  by_cases h : slot = other
  · subst h
    by_cases hlt : slot < t.slots.length <;> simp [hlt]
  · simp [h]

theorem length_free_le (t : Table δ) (slot : Nat) :
    (t.free slot).slots.length ≤ t.slots.length := by
  unfold free
  have h := List.IsSuffix.length_le
    (List.dropWhile_suffix (l := (t.slots.set slot none).reverse) Option.isNone)
  simpa using h

/-! ## Listings -/

theorem mem_entries : (slot, p) ∈ t.entries ↔ t.get? slot = some p := by
  unfold entries get?
  rw [List.mem_filterMap, Option.join_eq_some_iff]
  constructor
  · rintro ⟨⟨entry, i⟩, hmem, hmap⟩
    have hget : t.slots[i]? = some entry := List.mk_mem_zipIdx_iff_getElem?.mp hmem
    rcases Option.map_eq_some_iff.mp hmap with ⟨q, rfl, heq⟩
    rcases Prod.mk.inj heq with ⟨rfl, rfl⟩
    exact hget
  · intro hget
    exact ⟨(some p, slot), List.mk_mem_zipIdx_iff_getElem?.mpr hget, rfl⟩

theorem mem_ports : p ∈ t.ports ↔ ∃ slot, t.get? slot = some p := by
  unfold ports get?
  simp only [List.mem_filterMap, id_eq, Option.join_eq_some_iff]
  constructor
  · rintro ⟨entry, hmem, rfl⟩
    exact List.mem_iff_getElem?.mp hmem
  · rintro ⟨slot, hget⟩
    exact ⟨some p, List.mem_of_getElem? hget, rfl⟩

theorem ports_map (t : Table δ) (f : Port δ → Port δ) : (t.map f).ports = t.ports.map f := by
  unfold ports map
  rw [List.filterMap_map, List.map_filterMap]
  rfl

/-- Tables related slot by slot list related ports. -/
theorem forall₂_ports {R : Port δ → Port δ → Prop} (hlength : u.slots.length = t.slots.length)
    (h : ∀ slot, Option.Rel R (t.get? slot) (u.get? slot)) : List.Forall₂ R t.ports u.ports := by
  rcases t with ⟨slots⟩
  rcases u with ⟨others⟩
  unfold ports
  simp only [get?] at h hlength ⊢
  induction slots generalizing others with
  | nil =>
    obtain rfl := List.length_eq_zero_iff.mp hlength
    exact List.Forall₂.nil
  | cons entry slots ih =>
    cases others with
    | nil => cases hlength
    | cons other others =>
      have hrest := ih others (Nat.succ.inj hlength) fun slot => h (slot + 1)
      have hfirst : Option.Rel R entry other := h 0
      cases hfirst with
      | none => exact hrest
      | some hpq => exact List.Forall₂.cons hpq hrest

/-- A slot triggers itself and the expressions that it is a trigger of. -/
theorem contains_triggeredBy :
    (t.triggeredBy slot).contains other = true ↔
      slot = other ∨ ∃ p, t.get? other = some p ∧ p.triggers.contains slot = true := by
  unfold triggeredBy
  rw [Triggers.contains_union, Bool.or_eq_true, Triggers.contains_only, decide_eq_true_iff,
    Triggers.contains_unionAll]
  refine or_congr Iff.rfl ?_
  constructor
  · rintro ⟨s, hs, hc⟩
    rcases List.mem_map.mp hs with ⟨⟨i, p⟩, hmem, rfl⟩
    rw [Triggers.contains_when, Bool.and_eq_true, Triggers.contains_only,
      decide_eq_true_iff] at hc
    rcases hc with ⟨hp, rfl⟩
    exact ⟨p, mem_entries.mp hmem, hp⟩
  · rintro ⟨p, hget, hp⟩
    refine ⟨_, List.mem_map.mpr ⟨(other, p), mem_entries.mpr hget, rfl⟩, ?_⟩
    simp [hp]

/-! ## Searches -/

/-- The search finds the first slot with a port of the identifier. -/
theorem slotOf?_eq_some_iff :
    t.slotOf? id = some slot ↔
      (∃ p, t.get? slot = some p ∧ p.id = id) ∧
        ∀ earlier < slot, ∀ q, t.get? earlier = some q → q.id ≠ id := by
  unfold slotOf?
  rw [List.findIdx?_eq_some_iff_getElem]
  constructor
  · rintro ⟨hlt, hany, hfirst⟩
    rcases (Option.any_eq_true _ _).mp hany with ⟨p, hentry, hid⟩
    refine ⟨⟨p, ?_, of_decide_eq_true hid⟩, ?_⟩
    · rw [get?_eq_some, List.getElem?_eq_getElem hlt, hentry]
    · intro earlier hearlier q hget hq
      rcases List.getElem?_eq_some_iff.mp (get?_eq_some.mp hget) with ⟨hlt', hentry'⟩
      apply hfirst earlier hearlier
      simp [hentry', hq]
  · rintro ⟨⟨p, hget, hid⟩, hfirst⟩
    rcases List.getElem?_eq_some_iff.mp (get?_eq_some.mp hget) with ⟨hlt, hentry⟩
    refine ⟨hlt, by simp [hentry, hid], ?_⟩
    intro earlier hearlier hany
    rcases (Option.any_eq_true _ _).mp hany with ⟨q, hq, hqid⟩
    have hget' : t.get? earlier = some q := by
      rw [get?_eq_some, List.getElem?_eq_getElem (by omega), hq]
    exact hfirst earlier hearlier q hget' (of_decide_eq_true hqid)

theorem slotOf?_eq_some (h : t.slotOf? id = some slot) :
    ∃ p, t.get? slot = some p ∧ p.id = id :=
  (slotOf?_eq_some_iff.mp h).1

theorem slotOf?_eq_none : t.slotOf? id = none ↔ ∀ slot p, t.get? slot = some p → p.id ≠ id := by
  unfold slotOf?
  rw [List.findIdx?_eq_none_iff]
  constructor
  · intro h slot p hget
    simpa using h _ (List.mem_of_getElem? (get?_eq_some.mp hget))
  · intro h entry hmem
    rcases List.mem_iff_getElem?.mp hmem with ⟨slot, hslot⟩
    cases entry with
    | none => rfl
    | some p =>
      have hne := h slot p (get?_eq_some.mpr hslot)
      simpa using hne

/-- The search by identifier depends on nothing but the identifiers in the slots. -/
theorem slotOf?_congr (h : ∀ slot, (t.get? slot).map Port.id = (u.get? slot).map Port.id) :
    t.slotOf? = u.slotOf? := by
  -- both directions are one statement, used with the tables the other way round
  have hone : ∀ {t u : Table δ}, (∀ slot, (t.get? slot).map Port.id = (u.get? slot).map Port.id) →
      ∀ {slot p}, t.get? slot = some p → ∃ q, u.get? slot = some q ∧ q.id = p.id := by
    intro t u h slot p hget
    have hmap := h slot
    rw [hget] at hmap
    exact Option.map_eq_some_iff.mp hmap.symm
  have hsome : ∀ {t u : Table δ}, (∀ slot, (t.get? slot).map Port.id = (u.get? slot).map Port.id) →
      ∀ {id slot}, t.slotOf? id = some slot → u.slotOf? id = some slot := by
    intro t u h id slot hfound
    rcases slotOf?_eq_some_iff.mp hfound with ⟨⟨p, hget, hid⟩, hfirst⟩
    rcases hone h hget with ⟨q, hq, hqid⟩
    refine slotOf?_eq_some_iff.mpr ⟨⟨q, hq, hqid.trans hid⟩, ?_⟩
    intro earlier hearlier q hq
    rcases hone (fun s => (h s).symm) hq with ⟨p, hp, hpid⟩
    exact hpid ▸ hfirst earlier hearlier p hp
  funext id
  refine Option.ext fun slot => ⟨hsome h, hsome fun s => (h s).symm⟩

theorem find?_eq_some (h : t.find? id = some p) :
    ∃ slot, t.slotOf? id = some slot ∧ t.get? slot = some p ∧ p.id = id := by
  unfold find? at h
  rcases Option.bind_eq_some_iff.mp h with ⟨slot, hslot, hget⟩
  rcases slotOf?_eq_some hslot with ⟨q, hq, hid⟩
  rw [hget] at hq
  obtain rfl := Option.some.inj hq
  exact ⟨slot, hslot, hget, hid⟩

theorem find?_eq_none : t.find? id = none ↔ t.slotOf? id = none := by
  unfold find?
  constructor
  · intro h
    cases hslot : t.slotOf? id with
    | none => rfl
    | some slot =>
      rcases slotOf?_eq_some hslot with ⟨p, hget, -⟩
      rw [hslot, Option.bind_some, hget] at h
      exact absurd h (by simp)
  · intro h
    rw [h, Option.bind_none]

/-! ## Distinct identifiers -/

/-- No two slots hold ports of one identifier. -/
def Distinct (t : Table δ) : Prop :=
  ∀ ⦃slot other p q⦄, t.get? slot = some p → t.get? other = some q → p.id = q.id → slot = other

theorem Distinct.slotOf? (h : t.Distinct) (hget : t.get? slot = some p) :
    t.slotOf? p.id = some slot := by
  rw [slotOf?_eq_some_iff]
  refine ⟨⟨p, hget, rfl⟩, ?_⟩
  intro earlier hearlier q hq hid
  exact absurd (h hq hget hid) (by omega)

theorem Distinct.find? (h : t.Distinct) (hget : t.get? slot = some p) :
    t.find? p.id = some p := by
  rw [Table.find?, h.slotOf? hget, Option.bind_some, hget]

theorem Distinct.find?_iff (h : t.Distinct) :
    t.find? id = some p ↔ ∃ slot, t.get? slot = some p ∧ p.id = id := by
  constructor
  · intro hfind
    rcases find?_eq_some hfind with ⟨slot, -, hget, hid⟩
    exact ⟨slot, hget, hid⟩
  · rintro ⟨slot, hget, rfl⟩
    exact h.find? hget

theorem Distinct.pairwise_ports (h : t.Distinct) : t.ports.Pairwise fun p q => p.id ≠ q.id := by
  have hget {slot : Nat} (hlt : slot < t.slots.length) {p : Port δ}
      (hentry : t.slots[slot] = some p) : t.get? slot = some p := by
    rw [get?_eq_some, List.getElem?_eq_getElem hlt, hentry]
  unfold ports
  rw [List.pairwise_filterMap, List.pairwise_iff_getElem]
  intro i j hi hj hlt p hp q hq hid
  exact absurd (h (hget hi hp) (hget hj hq) hid) (Nat.ne_of_lt hlt)

/-- A table with the same identifiers in the slots has distinct ones as well. -/
theorem Distinct.of_map_id (h : t.Distinct)
    (hmap : ∀ slot, (u.get? slot).map Port.id = (t.get? slot).map Port.id) : u.Distinct := by
  intro slot other p q hp hq hid
  have hp' := hmap slot
  have hq' := hmap other
  rw [hp] at hp'
  rw [hq] at hq'
  rcases Option.map_eq_some_iff.mp hp'.symm with ⟨p', hgetp, hpid⟩
  rcases Option.map_eq_some_iff.mp hq'.symm with ⟨q', hgetq, hqid⟩
  exact h hgetp hgetq (hpid.trans (hid.trans hqid.symm))

/-! ## The free slot -/

/-- The free slot is no further than the end, and holds nothing. -/
theorem freeSlot?_eq_some (h : t.freeSlot? = some slot)
    (hlen : t.slots.length ≤ Triggers.maxPorts) :
    slot ≤ t.slots.length ∧ slot < Triggers.maxPorts ∧ t.get? slot = none := by
  unfold freeSlot? at h
  split at h
  · -- a slot was freed before the end
    next free hfree =>
    obtain rfl := Option.some.inj h
    rcases List.findIdx?_eq_some_iff_getElem.mp hfree with ⟨hlt, hnone, -⟩
    refine ⟨by omega, by omega, ?_⟩
    rw [get?, List.getElem?_eq_getElem hlt, Option.isNone_iff_eq_none.mp hnone]
    rfl
  · split at h
    · next hlt =>
      obtain rfl := Option.some.inj h
      exact ⟨Nat.le_refl _, hlt, by simp [get?]⟩
    · cases h

end Table

end PortLogic
