import PortLogic.Proofs.Memory.Latest
import PortLogic.Proofs.Number.Alike
import PortLogic.Proofs.Number.Whole

/-!
# PortLogic.Proofs.Memory.Held — a value that has been held

`HELD` remembers since when its value has not changed, whatever the target is. Where the value
equals the target, this is since when all values have equalled it (`holdsFrom_latest`): a value
before a change cannot equal the target as well. So `HELD` is true when a condition on the whole
history is (`held_iff_lasting`).
-/

namespace PortLogic

namespace Memory

variable {value : Nat → Number} {t : Timeline} {target d : Number} {i j k : Nat}

namespace Held

variable (value) in
/-- Whether the value of an evaluation differs from that of an earlier one. -/
def replaces (j k : Nat) : Bool :=
  !(value j == value k)

variable (value target) in
/-- The first evaluation from which on all values up to a given one equal the target. -/
structure HoldsFrom (k j : Nat) : Prop where
  le : j ≤ k
  equal : ∀ i, j ≤ i → i ≤ k → (value i == target) = true
  earliest : ∀ j', (∀ i, j' ≤ i → i ≤ k → (value i == target) = true) → j ≤ j'

theorem HoldsFrom.unique (hi : HoldsFrom value target k i) (hj : HoldsFrom value target k j) :
    i = j :=
  Nat.le_antisymm (hi.earliest j hj.equal) (hj.earliest i hi.equal)

/-- The values since the last change equal what the value after it equals. -/
theorem latest_beq (hle : latest (replaces value) k ≤ i) (hk : i ≤ k) (x : Number) :
    (value (latest (replaces value) k) == x) = (value i == x) := by
  rcases Nat.lt_or_eq_of_le hle with hlt | heq
  · have hsame := not_replaces hlt hk
    unfold replaces at hsame
    rw [Bool.not_eq_false'] at hsame
    exact Number.beq_congr (Number.alike_of_beq hsame) (Number.Alike.refl x)
  · rw [heq]

/-- Where the value equals the target, it has since the last change of the value. -/
theorem holdsFrom_latest (h : (value k == target) = true) :
    HoldsFrom value target k (latest (replaces value) k) := by
  refine ⟨latest_le k, ?_, ?_⟩
  · intro i hle hk
    rw [← latest_beq hle hk, latest_beq (latest_le k) (Nat.le_refl k), h]
  · intro first hequal
    by_contra hbefore
    have hlatest : latest (replaces value) (latest (replaces value) k) =
        latest (replaces value) k := latest_latest k
    have hk : latest (replaces value) k ≤ k := latest_le k
    generalize latest (replaces value) k = start at hbefore hlatest hk
    cases start with
    | zero => exact hbefore (Nat.zero_le first)
    | succ n =>
      -- the change was from a value that equals the target to another one
      have hchange : (!(value (latest (replaces value) n) == value (n + 1))) = true :=
        latest_succ_iff.mp hlatest
      have hlast := hequal n (by omega) (by omega)
      have hnew := hequal (n + 1) (by omega) hk
      rw [latest_beq (latest_le n) (Nat.le_refl n), Number.beq_of_beq_of_beq hlast hnew] at hchange
      cases hchange

theorem since_eq (start now j k : Nat) : since ⟨some (value j, start)⟩ (value k) now =
    if replaces value j k then (now, ⟨some (value k, now)⟩)
    else (start, ⟨some (value j, start)⟩) := by
  unfold since replaces
  simp only [Bool.not_eq_true', ← Bool.not_eq_true, ite_not]

end Held

/-- An evaluation measures the time since the value last changed, and remembers when that was. -/
theorem held_latest (value : Nat → Number) (t : Timeline) (target d : Number) (k : Nat) :
    let j := latest (Held.replaces value) k
    yields .held (fun k => [value k, target, d]) t k = some (Number.ofBool
        (value k == target && decide (d ≤ elapsed (t.time j) (t.time k)))) ∧
      before .held (fun k => [value k, target, d]) t (k + 1) =
        .held ⟨some (value j, t.time j)⟩ := by
  induction k with
  | zero => exact ⟨rfl, rfl⟩
  | succ k ih =>
    rcases evaluation_step ih.2 rfl with ⟨hyields, hnext⟩
    rw [hyields, hnext, Held.step, Held.since_eq]
    cases h : Held.replaces value (latest (Held.replaces value) k) (k + 1) with
    | true =>
      rw [latest_of_replaces h]
      exact ⟨rfl, rfl⟩
    | false =>
      rw [latest_of_not_replaces h]
      exact ⟨rfl, rfl⟩

/-- A held value yields one when it equals the target and the duration has passed since the first
evaluation from which on all values have equalled the target, and zero otherwise. -/
theorem held_iff_lasting (value : Nat → Number) (t : Timeline) (target d : Number) (k : Nat) :
    let output := yields .held (fun k => [value k, target, d]) t k
    let lasting := ∃ j, Held.HoldsFrom value target k j ∧
      d.isAtMost (t.time k - t.time j) = true
    (output = some 1 ↔ lasting) ∧ (output = some 0 ↔ ¬lasting) := by
  intro output lasting
  have houtput : output = some (Number.ofBool (value k == target &&
      decide (d ≤ elapsed (t.time (latest (Held.replaces value) k)) (t.time k)))) :=
    (held_latest value t target d k).1
  have hlasting : lasting ↔ (value k == target &&
      decide (d ≤ elapsed (t.time (latest (Held.replaces value) k)) (t.time k))) = true := by
    rw [Bool.and_eq_true, decide_eq_true_eq, le_elapsed_iff (t.bounded k)]
    constructor
    · rintro ⟨j, hfrom, hdue⟩
      have hequal := hfrom.equal k hfrom.le (Nat.le_refl k)
      rw [hfrom.unique (Held.holdsFrom_latest hequal)] at hdue
      exact ⟨hequal, hdue⟩
    · rintro ⟨hequal, hdue⟩
      exact ⟨_, Held.holdsFrom_latest hequal, hdue⟩
  rw [houtput, hlasting]
  cases value k == target &&
      decide (d ≤ elapsed (t.time (latest (Held.replaces value) k)) (t.time k)) with
  | true => decide +kernel
  | false => decide +kernel

end Memory

end PortLogic
