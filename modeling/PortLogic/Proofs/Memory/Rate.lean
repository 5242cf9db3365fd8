import PortLogic.Proofs.Memory.Latest
import PortLogic.Proofs.Number.Alike
import PortLogic.Proofs.Number.Whole

/-!
# PortLogic.Proofs.Memory.Rate — sampling and freezing limit a rate

`SAMPLE` and `FREEZE` show a value for a duration before they show another one. The one latches a
value again as soon as the duration has passed, the other only when the value differs, and it drops
its timer at the first evaluation past the duration. Both are `Limited`: what they show is the value
of the latest latch or change, these are at least the duration apart, and an evaluation that comes
the duration after the last one shows its own value (`rate_limited`). For a frozen output the two
zeros are one value, and the zero it has stays.
-/

namespace PortLogic

namespace Memory

variable {value : Nat → Number} {t : Timeline} {d : Number} {i j k : Nat}

/-- An output shows the value of the latest marked evaluation. Marks are a duration apart, and an
evaluation that is a duration after the last mark before it shows its own value, as far as `same`
tells values apart. -/
structure Limited (same : Number → Number → Prop) (value : Nat → Number) (t : Timeline) (d : Number)
    (marked : Nat → Prop) (output : Nat → Value) : Prop where
  shows : ∀ k, ∃ j, IsLatest marked k j ∧ output k = some (value j)
  apart : ∀ i j, i < j → marked i → marked j → d.hasPassed (t.time j - t.time i) = true
  follows : ∀ k j, IsLatest marked k j → d.hasPassed (t.time (k + 1) - t.time j) = true →
    ∃ x, output (k + 1) = some x ∧ same x (value (k + 1))

/-- A memory that remembers what it shows limits its rate when only evaluations past the duration
replace the remembered one, and all of these that differ from it. -/
theorem limited_of_latest {same : Number → Number → Prop} {marked : Nat → Prop}
    {output : Nat → Value} {replaces : Nat → Nat → Bool} (hfirst : marked 0)
    (hnext : ∀ k, marked (k + 1) ↔ replaces (latest replaces k) (k + 1) = true)
    (houtput : ∀ k, output k = some (value (latest replaces k)))
    (hpassed : ∀ j k, replaces j k = true → d.hasPassed (t.time k - t.time j) = true)
    (hkept : ∀ j k, replaces j k = false → d.hasPassed (t.time k - t.time j) = true →
      same (value j) (value k))
    (hrefl : ∀ x, same x x) : Limited same value t d marked output := by
  have hlatest (k : Nat) : IsLatest marked k (latest replaces k) := isLatest hfirst hnext k
  refine ⟨?_, ?_, ?_⟩
  · intro k
    exact ⟨latest replaces k, hlatest k, houtput k⟩
  · intro i j hlt hi hj
    cases j with
    | zero => cases hlt
    | succ k =>
      -- the earlier mark is not after the one that was replaced
      have hle : i ≤ latest replaces k := by
        by_contra hafter
        exact (hlatest k).none_since i (Nat.lt_of_not_le hafter) (Nat.le_of_lt_succ hlt) hi
      have hreplaced := hpassed _ _ ((hnext k).mp hj)
      exact Number.hasPassed_mono (Nat.sub_le_sub_left (t.ordered hle) _) hreplaced
  · intro k j hj hdue
    rw [hj.unique (hlatest k)] at hdue
    cases hreplaces : replaces (latest replaces k) (k + 1) with
    | true =>
      refine ⟨value (k + 1), ?_, hrefl _⟩
      rw [houtput, latest_of_replaces hreplaces]
    | false =>
      refine ⟨value (latest replaces k), ?_, hkept _ _ hreplaces hdue⟩
      rw [houtput, latest_of_not_replaces hreplaces]

/-- Between times of a timeline, less than a duration has elapsed while it has not passed. -/
theorem not_elapsed_lt (t : Timeline) (d : Number) (j k : Nat) :
    (!decide (elapsed (t.time j) (t.time k) < d)) = d.hasPassed (t.time k - t.time j) := by
  rw [Bool.eq_iff_iff, Bool.not_eq_true', decide_eq_false_iff_not, elapsed_lt_iff (t.bounded k),
    Bool.not_eq_false]

/-! ## Sampling -/

namespace Sample

/-- Whether a step latches its value. -/
def latches (m : Sample) (period : Number) (now : Nat) : Bool :=
  match m.latched with
  | .none => true
  | .some (_, since) => !decide (elapsed since now < period)

theorem step_eq (m : Sample) (x period : Number) (now : Nat) : m.step x period now =
    if m.latches period now then (some x, ⟨some (x, now)⟩) else (m.latched.map Prod.fst, m) := by
  rcases m with ⟨_ | ⟨latched, since⟩⟩
  · rfl
  · unfold step latches
    simp only [Bool.not_eq_true', decide_eq_false_iff_not, ite_not]
    rfl

variable (t d) in
/-- Whether an evaluation replaces the latched value of an earlier one: the period has passed. -/
def replaces (j k : Nat) : Bool :=
  d.hasPassed (t.time k - t.time j)

theorem latches_eq (x : Number) (j k : Nat) :
    latches ⟨some (x, t.time j)⟩ d (t.time k) = replaces t d j k :=
  not_elapsed_lt t d j k

variable (value t d) in
/-- An evaluation that latches its value. -/
def Latches (k : Nat) : Prop :=
  ∃ m, before .sample (fun k => [value k, d]) t k = .sample m ∧ m.latches d (t.time k) = true

end Sample

/-- An evaluation yields the value of the latest one that latched, and remembers its time. -/
theorem sample_latest (value : Nat → Number) (t : Timeline) (d : Number) (k : Nat) :
    let j := latest (Sample.replaces t d) k
    yields .sample (fun k => [value k, d]) t k = some (value j) ∧
      before .sample (fun k => [value k, d]) t (k + 1) = .sample ⟨some (value j, t.time j)⟩ := by
  induction k with
  | zero => exact ⟨rfl, rfl⟩
  | succ k ih =>
    rcases evaluation_step ih.2 rfl with ⟨hyields, hnext⟩
    rw [hyields, hnext, Sample.step_eq, Sample.latches_eq]
    cases h : Sample.replaces t d (latest (Sample.replaces t d) k) (k + 1) with
    | true =>
      rw [latest_of_replaces h]
      exact ⟨rfl, rfl⟩
    | false =>
      rw [latest_of_not_replaces h]
      exact ⟨rfl, rfl⟩

theorem latches_zero (value : Nat → Number) (t : Timeline) (d : Number) :
    Sample.Latches value t d 0 :=
  ⟨⟨Option.none⟩, rfl, rfl⟩

theorem latches_succ_iff (value : Nat → Number) (t : Timeline) (d : Number) (k : Nat) :
    Sample.Latches value t d (k + 1) ↔
      Sample.replaces t d (latest (Sample.replaces t d) k) (k + 1) = true := by
  unfold Sample.Latches
  rw [(sample_latest value t d k).2]
  constructor
  · rintro ⟨m, hm, hlatches⟩
    cases hm
    rwa [Sample.latches_eq] at hlatches
  · intro h
    exact ⟨_, rfl, (Sample.latches_eq _ _ _).trans h⟩

theorem sample_limited (value : Nat → Number) (t : Timeline) (d : Number) :
    Limited Eq value t d (Sample.Latches value t d)
      (yields .sample (fun k => [value k, d]) t) := by
  refine limited_of_latest (latches_zero value t d) (latches_succ_iff value t d) ?_ ?_ ?_ ?_
  · intro k
    exact (sample_latest value t d k).1
  · intro j k hreplaces
    exact hreplaces
  · intro j k hkept hpassed
    exact absurd hpassed (Bool.eq_false_iff.mp hkept)
  · exact Eq.refl

/-! ## Freezing -/

namespace Freeze

/-- Whether the output is held no longer. -/
def isFree (m : Freeze) (duration : Number) (now : Nat) : Bool :=
  match m.frozenAt with
  | .none => true
  | .some since => !decide (elapsed since now < duration)

/-- Whether a step changes the output. -/
def changes (m : Freeze) (x duration : Number) (now : Nat) : Bool :=
  m.isFree duration now && !(m.output == some x)

theorem step_eq (m : Freeze) (x duration : Number) (now : Nat) : m.step x duration now =
    if m.changes x duration now then (some x, ⟨some x, some now⟩)
    else (m.output, if m.isFree duration now then ⟨m.output, Option.none⟩ else m) := by
  have hfollow : m.follow x now =
      if !(m.output == some x) then (some x, ⟨some x, some now⟩)
      else (m.output, ⟨m.output, Option.none⟩) := by
    unfold follow
    cases m.output == some x <;> rfl
  unfold step changes isFree
  cases m.frozenAt with
  | none => exact hfollow
  | some since =>
    simp only [hfollow]
    by_cases hheld : elapsed since now < duration
    · simp only [hheld, decide_true, Bool.not_true, Bool.false_and, if_true, Bool.false_eq_true,
        if_false]
    · simp only [hheld, decide_false, Bool.not_false, Bool.true_and, if_true, if_false]

variable (value t d) in
/-- Whether an evaluation replaces the output of an earlier one: the duration has passed and the
values differ. -/
def replaces (j k : Nat) : Bool :=
  d.hasPassed (t.time k - t.time j) && !(value j == value k)

variable (value t d) in
/-- An evaluation that changes the output. -/
def Changes (k : Nat) : Prop :=
  ∃ m, before .freeze (fun k => [value k, d]) t k = .freeze m ∧
    m.changes (value k) d (t.time k) = true

variable (value t d) in
/-- The memory after an evaluation when the output was changed at an earlier one. Where the timer is
gone, the duration has passed. -/
structure Holds (k j : Nat) (m : Freeze) : Prop where
  output : m.output = some (value j)
  timer : m.frozenAt = some (t.time j) ∨
    m.frozenAt = Option.none ∧ d.hasPassed (t.time k - t.time j) = true

variable {m : Freeze}

theorem Holds.isFree (h : Holds value t d k j m) :
    m.isFree d (t.time (k + 1)) = d.hasPassed (t.time (k + 1) - t.time j) := by
  unfold Freeze.isFree
  rcases h.timer with htimer | ⟨htimer, hpassed⟩
  · rw [htimer]
    exact not_elapsed_lt t d j (k + 1)
  · rw [htimer]
    have hle : t.time k - t.time j ≤ t.time (k + 1) - t.time j :=
      Nat.sub_le_sub_right (t.ordered (Nat.le_succ k)) _
    exact (Number.hasPassed_mono hle hpassed).symm

theorem Holds.changes (h : Holds value t d k j m) :
    m.changes (value (k + 1)) d (t.time (k + 1)) = replaces value t d j (k + 1) := by
  unfold Freeze.changes replaces
  rw [h.isFree, h.output]
  rfl

/-- The output stays, and the timer with it unless the duration has passed. -/
theorem Holds.keep (h : Holds value t d k j m) : Holds value t d (k + 1) j
    (if m.isFree d (t.time (k + 1)) then ⟨m.output, Option.none⟩ else m) := by
  have hfree := h.isFree
  cases hpassed : m.isFree d (t.time (k + 1)) with
  | true => exact ⟨h.output, .inr ⟨rfl, hfree ▸ hpassed⟩⟩
  | false =>
    refine ⟨h.output, .inl ?_⟩
    rcases h.timer with htimer | ⟨htimer, -⟩
    · exact htimer
    · unfold Freeze.isFree at hpassed
      rw [htimer] at hpassed
      cases hpassed

end Freeze

/-- An evaluation yields the value of the latest one that changed the output, and remembers it. -/
theorem freeze_latest (value : Nat → Number) (t : Timeline) (d : Number) (k : Nat) :
    let j := latest (Freeze.replaces value t d) k
    yields .freeze (fun k => [value k, d]) t k = some (value j) ∧
      ∃ m, before .freeze (fun k => [value k, d]) t (k + 1) = .freeze m ∧
        Freeze.Holds value t d k j m := by
  induction k with
  | zero => exact ⟨rfl, _, rfl, rfl, .inl rfl⟩
  | succ k ih =>
    rcases ih.2 with ⟨m, hbefore, hholds⟩
    rcases evaluation_step hbefore rfl with ⟨hyields, hnext⟩
    rw [hyields, hnext, Freeze.step_eq, hholds.changes]
    cases h : Freeze.replaces value t d (latest (Freeze.replaces value t d) k) (k + 1) with
    | true =>
      rw [latest_of_replaces h]
      exact ⟨rfl, _, rfl, rfl, .inl rfl⟩
    | false =>
      rw [latest_of_not_replaces h]
      exact ⟨hholds.output, _, rfl, hholds.keep⟩

theorem changes_zero (value : Nat → Number) (t : Timeline) (d : Number) :
    Freeze.Changes value t d 0 :=
  ⟨⟨Option.none, Option.none⟩, rfl, rfl⟩

theorem changes_succ_iff (value : Nat → Number) (t : Timeline) (d : Number) (k : Nat) :
    Freeze.Changes value t d (k + 1) ↔
      Freeze.replaces value t d (latest (Freeze.replaces value t d) k) (k + 1) = true := by
  rcases (freeze_latest value t d k).2 with ⟨m, hbefore, hholds⟩
  unfold Freeze.Changes
  rw [hbefore, ← hholds.changes]
  constructor
  · rintro ⟨n, hn, hchanges⟩
    cases hn
    exact hchanges
  · intro h
    exact ⟨m, rfl, h⟩

theorem freeze_limited (value : Nat → Number) (t : Timeline) (d : Number) :
    Limited Number.Alike value t d (Freeze.Changes value t d)
      (yields .freeze (fun k => [value k, d]) t) := by
  refine limited_of_latest (changes_zero value t d) (changes_succ_iff value t d) ?_ ?_ ?_ ?_
  · intro k
    exact (freeze_latest value t d k).1
  · intro j k hreplaces
    exact (Bool.and_eq_true _ _ ▸ hreplaces).1
  · intro j k hkept hpassed
    unfold Freeze.replaces at hkept
    rw [hpassed, Bool.true_and, Bool.not_eq_false'] at hkept
    exact Number.alike_of_beq hkept
  · exact Number.Alike.refl

/-- The output of a freeze differs from the one before it where it changes, and is the same where
it does not. -/
theorem freeze_output (value : Nat → Number) (t : Timeline) (d : Number) (k : Nat) :
    let output := yields .freeze (fun k => [value k, d]) t
    (Freeze.Changes value t d (k + 1) → (output k == output (k + 1)) = false) ∧
      (¬Freeze.Changes value t d (k + 1) → output (k + 1) = output k) := by
  intro output
  have hvalue (k : Nat) : output k = some (value (latest (Freeze.replaces value t d) k)) :=
    (freeze_latest value t d k).1
  rw [hvalue, hvalue, changes_succ_iff, Bool.not_eq_true]
  constructor
  · intro h
    rw [latest_of_replaces h]
    unfold Freeze.replaces at h
    rw [Bool.and_eq_true, Bool.not_eq_true'] at h
    exact h.2
  · intro h
    rw [latest_of_not_replaces h]

/-- Sampling shows the value of the latest latch, and freezing that of the latest change of its
output. Two latches, and two changes, are at least the duration apart. An evaluation at least the
duration after the last one shows its own value, a freeze as far as it differs from the output in
more than the sign of zero. The output of a freeze differs from the one before where it changes. -/
theorem rate_limited (value : Nat → Number) (t : Timeline) (d : Number) :
    Limited Eq value t d (Sample.Latches value t d)
        (yields .sample (fun k => [value k, d]) t) ∧
      Limited Number.Alike value t d (Freeze.Changes value t d)
        (yields .freeze (fun k => [value k, d]) t) ∧
      ∀ k, let output := yields .freeze (fun k => [value k, d]) t
        (Freeze.Changes value t d (k + 1) → (output k == output (k + 1)) = false) ∧
          (¬Freeze.Changes value t d (k + 1) → output (k + 1) = output k) :=
  ⟨sample_limited value t d, freeze_limited value t d, freeze_output value t d⟩

end Memory

-- a value that grows by one every 40 milliseconds, shown for at least 100
example :
    let t : Timeline := ⟨fun k => min (k * 40) 1000, by omega, by omega⟩
    let output (f : Func) := (List.range 8).map (Memory.yields f (fun k => [.ofNat k, 100]) t)
    output .sample = [some 0, some 0, some 0, some 3, some 3, some 3, some 6, some 6] ∧
      output .freeze = output .sample := by
  decide +kernel

end PortLogic
