import Mathlib.Data.List.Range
import PortLogic.Proofs.Memory.Trace

/-!
# PortLogic.Proofs.Memory.Latest — the evaluation that a memory remembers

Several functions remember one evaluation, its value or its time, until a later one replaces it.
What they remember depends on the test that a later evaluation has to pass against the remembered
one, so it is computed from the test alone (`latest`). No evaluation since has passed the test
(`not_replaces`), and the evaluations that were once remembered are those that passed it (`chosen`).
-/

namespace PortLogic

namespace Memory

/-- The evaluation that is remembered after each one: the first, until a later one replaces it. -/
def latest (replaces : Nat → Nat → Bool) : Nat → Nat
  | 0 => 0
  | k + 1 => if replaces (latest replaces k) (k + 1) then k + 1 else latest replaces k

variable {replaces : Nat → Nat → Bool} {i j k : Nat}

theorem latest_of_replaces (h : replaces (latest replaces k) (k + 1) = true) :
    latest replaces (k + 1) = k + 1 :=
  if_pos h

theorem latest_of_not_replaces (h : replaces (latest replaces k) (k + 1) = false) :
    latest replaces (k + 1) = latest replaces k :=
  if_neg (by rw [h]; exact Bool.false_ne_true)

theorem latest_le (k : Nat) : latest replaces k ≤ k := by
  induction k with
  | zero => exact Nat.le_refl 0
  | succ k ih =>
    cases h : replaces (latest replaces k) (k + 1) with
    | true => exact Nat.le_of_eq (latest_of_replaces h)
    | false => exact latest_of_not_replaces h ▸ Nat.le_succ_of_le ih

theorem latest_succ_iff :
    latest replaces (k + 1) = k + 1 ↔ replaces (latest replaces k) (k + 1) = true := by
  refine ⟨?_, latest_of_replaces⟩
  intro h
  by_contra hkept
  have hle : latest replaces k ≤ k := latest_le k
  rw [latest_of_not_replaces (Bool.not_eq_true _ ▸ hkept)] at h
  omega

theorem latest_latest (k : Nat) : latest replaces (latest replaces k) = latest replaces k := by
  induction k with
  | zero => rfl
  | succ k ih =>
    cases h : replaces (latest replaces k) (k + 1) with
    | true => rw [latest_of_replaces h, latest_of_replaces h]
    | false => rw [latest_of_not_replaces h, ih]

/-- Nothing has replaced the remembered evaluation since. -/
theorem not_replaces (hlt : latest replaces k < i) (hle : i ≤ k) :
    replaces (latest replaces k) i = false := by
  induction k with
  | zero => exact absurd hle (Nat.not_le_of_lt hlt)
  | succ k ih =>
    cases hnext : replaces (latest replaces k) (k + 1) with
    | true =>
      rw [latest_of_replaces hnext] at hlt
      exact absurd hle (Nat.not_le_of_lt hlt)
    | false =>
      rw [latest_of_not_replaces hnext] at hlt ⊢
      rcases Nat.lt_or_eq_of_le hle with hbefore | rfl
      · exact ih hlt (Nat.le_of_lt_succ hbefore)
      · exact hnext

/-! ## The evaluations that were remembered -/

/-- The latest evaluation with a mark, up to a given one. -/
structure IsLatest (marked : Nat → Prop) (k j : Nat) : Prop where
  le : j ≤ k
  holds : marked j
  none_since : ∀ i, j < i → i ≤ k → ¬marked i

variable {marked : Nat → Prop}

theorem IsLatest.unique (hi : IsLatest marked k i) (hj : IsLatest marked k j) : i = j := by
  rcases Nat.lt_trichotomy i j with hlt | heq | hlt
  · exact absurd hj.holds (hi.none_since j hlt hj.le)
  · exact heq
  · exact absurd hi.holds (hj.none_since i hlt hi.le)

/-- Where the first evaluation is marked, and after it those that pass the test, the remembered
evaluation is the latest with a mark. -/
theorem isLatest (hfirst : marked 0)
    (hnext : ∀ k, marked (k + 1) ↔ replaces (latest replaces k) (k + 1) = true) (k : Nat) :
    IsLatest marked k (latest replaces k) := by
  induction k with
  | zero =>
    refine ⟨Nat.le_refl 0, hfirst, ?_⟩
    intro i hlt hle
    exact absurd hle (Nat.not_le_of_lt hlt)
  | succ k ih =>
    cases h : replaces (latest replaces k) (k + 1) with
    | true =>
      rw [latest_of_replaces h]
      refine ⟨Nat.le_refl _, (hnext k).mpr h, ?_⟩
      intro i hlt hle
      exact absurd hle (Nat.not_le_of_lt hlt)
    | false =>
      rw [latest_of_not_replaces h]
      refine ⟨Nat.le_succ_of_le ih.le, ih.holds, ?_⟩
      intro i hlt hle hmarked
      rcases Nat.lt_or_eq_of_le hle with hbefore | rfl
      · exact ih.none_since i hlt (Nat.le_of_lt_succ hbefore) hmarked
      · rw [(hnext k).mp hmarked] at h
        cases h

/-- The evaluations up to a given one that were remembered, oldest first. -/
def chosen (replaces : Nat → Nat → Bool) (k : Nat) : List Nat :=
  (List.range (k + 1)).filter fun i => decide (latest replaces i = i)

theorem chosen_succ (k : Nat) : chosen replaces (k + 1) =
    chosen replaces k ++ if replaces (latest replaces k) (k + 1) then [k + 1] else [] := by
  have htest : decide (latest replaces (k + 1) = k + 1) = replaces (latest replaces k) (k + 1) := by
    rw [Bool.eq_iff_iff, decide_eq_true_eq, latest_succ_iff]
  unfold chosen
  rw [List.range_succ, List.filter_append, List.filter_cons, List.filter_nil, htest]

theorem chosen_ne_nil (k : Nat) : chosen replaces k ≠ [] := by
  refine List.ne_nil_of_mem (a := 0) ?_
  exact List.mem_filter.mpr ⟨List.mem_range.mpr (Nat.succ_pos k), rfl⟩

end Memory

end PortLogic
