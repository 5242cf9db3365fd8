import Mathlib.Data.List.Nodup
import Mathlib.Data.List.Perm.Subperm
import PortLogic.Proofs.Wiring

/-!
# PortLogic.Proofs.Chains — chains of references from slot to slot

In a wired table the references of live expressions lead from slot to slot without coming back
(`Wired.not_transGen_self`). So a chain of them passes different slots, and it is no longer than
there are ports with a live expression (`Deep.le`).
-/

namespace PortLogic

open Relation

namespace Port

variable {δ : Type} {p : Port δ}

/-- Whether the port is an enabled output with a live expression. -/
def isLive (p : Port δ) : Bool :=
  p.enabled && p.output && p.live.isSome

theorem isLive_iff : p.isLive = true ↔
    p.enabled = true ∧ p.output = true ∧ p.live.isSome = true := by
  unfold isLive
  rw [Bool.and_eq_true, Bool.and_eq_true, and_assoc]

end Port

namespace Table

variable {δ : Type} {t u : Table δ} {slot other n : Nat} {p q : Port δ}

/-- The live expression of the port in a slot references the one in another slot. -/
structure DependsOn (t : Table δ) (slot other : Nat) : Prop where
  ne : slot ≠ other
  target : ∃ q, t.get? other = some q
  trigger : ∃ p, t.get? slot = some p ∧ p.live.isSome = true ∧ p.triggers.contains other = true

theorem DependsOn.of_sameWiring (hsame : t.SameWiring u) (h : u.DependsOn slot other) :
    t.DependsOn slot other := by
  rcases h with ⟨hne, ⟨q, hq⟩, p, hp, hlive, htrigger⟩
  rcases hsame.get? hq with ⟨q', hq', -⟩
  rcases hsame.get? hp with ⟨p', hp', hwiring⟩
  have hsome : p'.live.isSome = true := (Port.isSome_live_of_wiring hwiring).symm.trans hlive
  have htriggers : p.triggers = p'.triggers := congrArg Port.Wiring.triggers hwiring
  exact ⟨hne, ⟨q', hq'⟩, p', hp', hsome, htriggers ▸ htrigger⟩

theorem SameWiring.mem_slotsWhere_isLive (hsame : t.SameWiring u) (hget : u.get? slot = some p)
    (hlive : p.isLive = true) : slot ∈ t.slotsWhere Port.isLive := by
  rcases hsame.get? hget with ⟨p', hp', hwiring⟩
  rcases Port.isLive_iff.mp hlive with ⟨henabled, houtput, hsome⟩
  refine mem_slotsWhere.mpr ⟨p', hp', Port.isLive_iff.mpr ⟨?_, ?_, ?_⟩⟩
  · exact (congrArg Port.Wiring.enabled hwiring).symm.trans henabled
  · exact (congrArg Port.Wiring.output hwiring).symm.trans houtput
  · exact (Port.isSome_live_of_wiring hwiring).symm.trans hsome

theorem Wired.refers_of_dependsOn (h : t.Wired) (hdep : t.DependsOn slot other)
    (hp : t.get? slot = some p) (hq : t.get? other = some q) : t.Refers p.id q.id := by
  rcases hdep with ⟨-, -, p', hp', hlive, htrigger⟩
  obtain rfl := Option.some.inj (hp.symm.trans hp')
  rcases Option.isSome_iff_exists.mp hlive with ⟨expr, hexpr⟩
  rcases (h.coherent hp).live hexpr with ⟨-, -, hne, hparse⟩
  refine ⟨p, expr.reset, h.distinct.find? hp, hne, hparse, ?_, ?_⟩
  · rw [Expr.ports_reset]
    exact (h.contains_triggers hp hexpr hq).mp htrigger
  · rw [h.distinct.find? hq]
    rfl

/-- No chain of references comes back to where it starts. -/
theorem Wired.not_transGen_self (h : t.Wired) : ¬TransGen t.DependsOn slot slot := by
  let idOf (slot : Nat) : String := ((t.get? slot).map Port.id).getD ""
  have hid {slot : Nat} {p : Port δ} (hp : t.get? slot = some p) : idOf slot = p.id := by
    show ((t.get? slot).map Port.id).getD "" = p.id
    rw [hp]
    rfl
  have hlift {slot other : Nat} (hdep : t.DependsOn slot other) :
      t.Refers (idOf slot) (idOf other) := by
    rcases hdep.target with ⟨q, hq⟩
    rcases hdep.trigger with ⟨p, hp, -⟩
    rw [hid hp, hid hq]
    exact h.refers_of_dependsOn hdep hp hq
  intro hloop
  rcases TransGen.head'_iff.mp hloop with ⟨next, hfirst, hrest⟩
  rcases reflTransGen_iff_eq_or_transGen.mp hrest with heq | hback
  · exact hfirst.ne heq
  have hto : TransGen t.Refers (idOf slot) (idOf next) := TransGen.single (hlift hfirst)
  have hfrom : TransGen t.Refers (idOf next) (idOf slot) :=
    hback.lift idOf fun _ _ hdep => hlift hdep
  have hsame := h.loopFree _ _ hto hfrom
  rcases hfirst.target with ⟨q, hq⟩
  rcases hfirst.trigger with ⟨p, hp, -⟩
  rw [hid hp, hid hq] at hsame
  exact hfirst.ne (h.distinct hp hq hsame)

/-- References lead from a live slot through a number of live slots, the first one included. -/
inductive Deep (t : Table δ) : Nat → Nat → Prop where
  | single {slot : Nat} (hlive : slot ∈ t.slotsWhere Port.isLive) : Deep t 1 slot
  | step {n slot other : Nat} (hlive : slot ∈ t.slotsWhere Port.isLive)
      (hdep : t.DependsOn slot other) (h : Deep t n other) : Deep t (n + 1) slot

/-- The slots of a chain are different live ones. -/
theorem Deep.exists_slots (hwired : t.Wired) (h : t.Deep n slot) :
    ∃ slots : List Nat, slots.length = n ∧ slots.Nodup ∧
      ∀ other ∈ slots, other ∈ t.slotsWhere Port.isLive ∧ ReflTransGen t.DependsOn slot other := by
  induction h with
  | @single slot hlive =>
    refine ⟨[slot], rfl, List.nodup_singleton slot, ?_⟩
    intro other hmem
    rw [List.mem_singleton.mp hmem]
    exact ⟨hlive, ReflTransGen.refl⟩
  | @step n slot other hlive hdep _ ih =>
    rcases ih with ⟨slots, hlength, hnodup, hslots⟩
    have hnew : slot ∉ slots := by
      intro hmem
      exact hwired.not_transGen_self (TransGen.head' hdep (hslots slot hmem).2)
    refine ⟨slot :: slots, congrArg (· + 1) hlength, List.nodup_cons.mpr ⟨hnew, hnodup⟩, ?_⟩
    intro further hmem
    rcases List.mem_cons.mp hmem with rfl | hmem
    · exact ⟨hlive, ReflTransGen.refl⟩
    · exact ⟨(hslots further hmem).1, ReflTransGen.head hdep (hslots further hmem).2⟩

/-- A chain is no longer than there are live slots. -/
theorem Deep.le (hwired : t.Wired) (h : t.Deep n slot) :
    n ≤ (t.slotsWhere Port.isLive).length := by
  rcases h.exists_slots hwired with ⟨slots, rfl, hnodup, hslots⟩
  exact (hnodup.subperm fun other hmem => (hslots other hmem).1).length_le

end Table

end PortLogic
