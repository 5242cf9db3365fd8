import PortLogic.Triggers

/-!
# PortLogic.Proofs.Triggers — sets of triggers by their elements

What each operation on trigger sets does to `contains`, so that no later proof looks at the bits.
`Expr.contains_triggers` says what triggers an expression.
-/

namespace PortLogic

namespace Triggers

@[simp]
theorem contains_none (t : Nat) : none.contains t = false :=
  Nat.zero_testBit t

@[simp]
theorem contains_only (s t : Nat) : (only s).contains t = decide (s = t) := by
  unfold only contains
  rw [Nat.one_shiftLeft, Nat.testBit_two_pow]

@[simp]
theorem contains_union (a b : Triggers) (t : Nat) :
    (a ∪ b).contains t = (a.contains t || b.contains t) :=
  Nat.testBit_or a.bits b.bits t

@[simp]
theorem contains_when (condition : Bool) (s : Triggers) (t : Nat) :
    (Triggers.when condition s).contains t = (condition && s.contains t) := by
  cases condition <;> simp [Triggers.when]

/-- The elements of a union are those of its members. -/
theorem contains_unionAll (sets : List Triggers) (t : Nat) :
    (unionAll sets).contains t = true ↔ ∃ s ∈ sets, s.contains t = true := by
  -- the fold carries what the union holds so far
  have hfold : ∀ start : Triggers, (sets.foldl (· ∪ ·) start).contains t = true ↔
      start.contains t = true ∨ ∃ s ∈ sets, s.contains t = true := by
    induction sets with
    | nil => simp
    | cons s rest ih =>
      intro start
      rw [List.foldl_cons, ih]
      simp [or_assoc]
  rw [unionAll, hfold]
  simp

/-- Two sets meet when they share an element. -/
theorem meets_iff (s t : Triggers) :
    s.meets t = true ↔ ∃ k, s.contains k = true ∧ t.contains k = true := by
  have hinter (k : Nat) : (s ∩ t).contains k = (s.contains k && t.contains k) :=
    Nat.testBit_and s.bits t.bits k
  unfold meets
  rw [decide_eq_true_iff]
  constructor
  · intro hne
    have hbits : (s ∩ t).bits ≠ 0 := by
      intro h0
      exact hne (congrArg Triggers.mk h0)
    rcases Nat.exists_testBit_of_ne_zero hbits with ⟨k, hk⟩
    have hboth : (s ∩ t).contains k = true := hk
    rw [hinter, Bool.and_eq_true] at hboth
    exact ⟨k, hboth⟩
  · rintro ⟨k, hs, ht⟩ h0
    have hboth : (s ∩ t).contains k = true := by
      rw [hinter, hs, ht]
      rfl
    rw [h0, contains_none] at hboth
    exact absurd hboth (by decide)

end Triggers

namespace Expr

/-- The slots among what triggers an expression are those of the ports it references. -/
theorem contains_portTriggers (slotOf : String → Option Nat) (e : Expr) (t : Nat) :
    (e.portTriggers slotOf).contains t = true ↔ ∃ id ∈ e.ports, slotOf id = some t := by
  unfold portTriggers
  rw [Triggers.contains_unionAll]
  constructor
  · rintro ⟨s, hs, ht⟩
    rcases List.mem_map.mp hs with ⟨slot, hslot, rfl⟩
    rcases List.mem_filterMap.mp hslot with ⟨id, hid, hof⟩
    rw [Triggers.contains_only, decide_eq_true_iff] at ht
    exact ⟨id, hid, ht ▸ hof⟩
  · rintro ⟨id, hid, hof⟩
    have hslot : t ∈ e.ports.filterMap slotOf := List.mem_filterMap.mpr ⟨id, hid, hof⟩
    exact ⟨Triggers.only t, List.mem_map.mpr ⟨t, hslot, rfl⟩, by simp⟩

/-- An expression is triggered by the ports it references and by the clocks it reads. -/
theorem contains_triggers (slotOf : String → Option Nat) (e : Expr) (t : Nat) :
    (e.triggers slotOf).contains t = true ↔
      (∃ id ∈ e.ports, slotOf id = some t) ∨ (e.readsSecond = true ∧ t = 63) ∨
        (e.readsMillisecond = true ∧ t = 62) := by
  unfold triggers Triggers.second Triggers.millisecond
  simp only [Triggers.contains_union, Triggers.contains_when, Triggers.contains_only,
    Bool.or_eq_true, Bool.and_eq_true, decide_eq_true_eq, contains_portTriggers, or_assoc,
    @eq_comm Nat _ t]

end Expr

end PortLogic
