import PortLogic.Proofs.Memory.Trace
import PortLogic.Proofs.Number.Exact

/-!
# PortLogic.Proofs.Memory.Cycle — which value of a sequence is shown

A sequence of whole durations is a timetable: each pair is shown from the end of the pairs before it
to its own end, and the timetable repeats from the first evaluation on. At every moment exactly one
pair is shown (`IsShown.unique`), and the search of a sequence finds it (`find_eq`), since sums and
remainders of whole numbers are exact. So the value of the last pair is never shown in place of
another one (`sequence_shows`).
-/

namespace PortLogic

-- powers and sums of naturals are the built-in ones, whatever algebra is in scope
attribute [local instance (2000)] instPowNat Zero.ofOfNat0

namespace Memory

namespace Cycle

variable {pairs : List (Number × Number)} {i j phase : Nat}

/-- The arguments of a sequence: each value and its duration. -/
def listed (pairs : List (Number × Number)) : List Number :=
  pairs.flatMap fun pair => [pair.1, pair.2]

theorem pairUp?_listed (pairs : List (Number × Number)) : pairUp? (listed pairs) = some pairs := by
  induction pairs with
  | nil => rfl
  | cons pair pairs ih =>
    show (pairUp? (listed pairs)).map ((pair.1, pair.2) :: ·) = some (pair :: pairs)
    rw [ih]
    rfl

theorem length_listed (pairs : List (Number × Number)) :
    (listed pairs).length = 2 * pairs.length := by
  induction pairs with
  | nil => rfl
  | cons pair pairs ih =>
    show (listed pairs).length + 1 + 1 = 2 * (pairs.length + 1)
    rw [ih]
    omega

/-- The whole milliseconds of a duration. -/
def millis (duration : Number) : Nat :=
  duration.wholePart.toNat

/-- The milliseconds for which pairs are shown together. -/
def total (pairs : List (Number × Number)) : Nat :=
  (pairs.map fun pair => millis pair.2).sum

@[simp]
theorem total_nil : total [] = 0 :=
  rfl

@[simp]
theorem total_cons (pair : Number × Number) (pairs : List (Number × Number)) :
    total (pair :: pairs) = millis pair.2 + total pairs := by
  simp [total]

theorem total_append (xs ys : List (Number × Number)) : total (xs ++ ys) = total xs + total ys := by
  unfold total
  rw [List.map_append, List.sum_append]

/-! ## The timetable -/

/-- A pair is shown at a phase of the timetable when those before it have ended by then, and it has
not. -/
def IsShown (pairs : List (Number × Number)) (phase i : Nat) : Prop :=
  total (pairs.take i) ≤ phase ∧ phase < total (pairs.take (i + 1))

theorem total_take_mono (pairs : List (Number × Number)) (h : i ≤ j) :
    total (pairs.take i) ≤ total (pairs.take j) := by
  have hsplit := total_append ((pairs.take j).take i) ((pairs.take j).drop i)
  rw [List.take_append_drop, List.take_take, Nat.min_eq_left h] at hsplit
  omega

theorem IsShown.unique (hi : IsShown pairs phase i) (hj : IsShown pairs phase j) : i = j := by
  rcases Nat.lt_trichotomy i j with hlt | heq | hlt
  · exact absurd (Nat.lt_of_lt_of_le hi.2 (total_take_mono pairs hlt)) (Nat.not_lt_of_le hj.1)
  · exact heq
  · exact absurd (Nat.lt_of_lt_of_le hj.2 (total_take_mono pairs hlt)) (Nat.not_lt_of_le hi.1)

/-- A pair without a duration is never shown. -/
theorem IsShown.millis_pos {pair : Number × Number} (h : IsShown pairs phase i)
    (hpair : pairs[i]? = some pair) : 0 < millis pair.2 := by
  have hnext : total (pairs.take (i + 1)) = total (pairs.take i) + millis pair.2 := by
    rw [List.take_add_one, hpair, total_append]
    rfl
  unfold IsShown at h
  omega

/-- From the end of some pairs on, the search finds the pair that is shown. -/
theorem find_eq {offset start : Number} {begun : Nat} (hoffset : offset.Counts phase)
    (hstart : start.Counts begun) (hpairs : ∀ pair ∈ pairs, pair.2.Counts (millis pair.2))
    (hbound : begun + total pairs ≤ 2 ^ (53 : Nat)) (hle : begun ≤ phase)
    (hlt : phase < begun + total pairs) :
    ∃ i pair, pairs[i]? = some pair ∧ begun + total (pairs.take i) ≤ phase ∧
      phase < begun + total (pairs.take (i + 1)) ∧ find offset start pairs = some pair.1 := by
  induction pairs generalizing start begun with
  | nil => exact absurd hlt (Nat.not_lt_of_le hle)
  | cons pair pairs ih =>
    rw [total_cons, ← Nat.add_assoc] at hbound hlt
    have hstop : (start + pair.2).Counts (begun + millis pair.2) :=
      hstart.add (hpairs pair List.mem_cons_self) (by omega)
    have hsearch : find offset start (pair :: pairs) =
        if offset < start + pair.2 then some pair.1 else find offset (start + pair.2) pairs := rfl
    rw [hsearch]
    by_cases hshown : phase < begun + millis pair.2
    · refine ⟨0, pair, rfl, hle, ?_, if_pos ((hoffset.lt_iff hstop).mpr hshown)⟩
      simpa using hshown
    · rcases ih hstop (fun other hmem => hpairs other (List.mem_cons_of_mem pair hmem)) hbound
        (Nat.le_of_not_lt hshown) hlt with ⟨i, other, hother, hbegun, hended, hfind⟩
      refine ⟨i + 1, other, hother, ?_, ?_, ?_⟩
      · rwa [List.take_succ_cons, total_cons, ← Nat.add_assoc]
      · rwa [List.take_succ_cons, total_cons, ← Nat.add_assoc]
      · rw [if_neg fun h => hshown ((hoffset.lt_iff hstop).mp h), hfind]

theorem mem_of_find {offset start value : Number} (h : find offset start pairs = some value) :
    ∃ pair ∈ pairs, pair.1 = value := by
  induction pairs generalizing start with
  | nil => cases h
  | cons pair pairs ih =>
    change (if offset < start + pair.2 then some pair.1 else find offset (start + pair.2) pairs) =
      some value at h
    split at h
    · exact ⟨pair, List.mem_cons_self, Option.some.inj h⟩
    · rcases ih h with ⟨other, hmem, hother⟩
      exact ⟨other, List.mem_cons_of_mem pair hmem, hother⟩

/-- A sequence that lists one value only shows it at every offset. -/
theorem valueAt_of_forall {value : Number} (hnonempty : pairs ≠ [])
    (h : ∀ pair ∈ pairs, pair.1 = value) (offset : Number) :
    valueAt pairs offset = some value := by
  rw [valueAt]
  cases hfind : find offset 0 pairs with
  | none =>
    rw [List.getLast?_eq_some_getLast hnonempty]
    exact congrArg some (h _ (List.getLast_mem hnonempty))
  | some found =>
    rcases mem_of_find hfind with ⟨pair, hmem, rfl⟩
    exact congrArg some (h pair hmem)

/-- A sequence of whole durations shows the value at the time since its first evaluation. -/
theorem step_eq {m : Cycle} (hpairs : ∀ pair ∈ pairs, pair.2.Counts (millis pair.2))
    (hperiod : (Number.sum (pairs.map Prod.snd)).Counts (total pairs)) (hpos : 0 < total pairs)
    (now : Nat) : m.step (listed pairs) now =
      (valueAt pairs (elapsed (m.anchor.getD now) now % Number.sum (pairs.map Prod.snd)),
        ⟨some (m.anchor.getD now)⟩) := by
  have hnonneg : ¬(pairs.any fun pair => pair.2 < 0) = true := by
    rw [List.any_eq_true]
    rintro ⟨pair, hmem, hlt⟩
    have hlt := ((hpairs pair hmem).lt_iff Number.counts_zero).mp (of_decide_eq_true hlt)
    exact Nat.not_lt_zero _ hlt
  have hlasts : ¬Number.sum (pairs.map Prod.snd) ≤ 0 := by
    rw [hperiod.le_iff Number.counts_zero]
    omega
  unfold step
  rw [pairUp?_listed]
  exact if_neg (not_or.mpr ⟨hnonneg, hlasts⟩)

end Cycle

variable {pairs : List (Number × Number)} {time : Nat → Nat}

theorem sequence_evaluation {m : Cycle} {k : Nat}
    (h : beforeAt .sequence (fun _ => Cycle.listed pairs) time k = .cycle m) :
    yieldsAt .sequence (fun _ => Cycle.listed pairs) time k =
        (m.step (Cycle.listed pairs) (time k)).1 ∧
      beforeAt .sequence (fun _ => Cycle.listed pairs) time (k + 1) =
        .cycle (m.step (Cycle.listed pairs) (time k)).2 := by
  refine evaluationAt ?_
  rw [h]
  rfl

/-- The first evaluation starts the timetable, and later ones keep its start. -/
theorem sequence_anchored (hpairs : ∀ pair ∈ pairs, pair.2.Counts (Cycle.millis pair.2))
    (hperiod : (Number.sum (pairs.map Prod.snd)).Counts (Cycle.total pairs))
    (hpos : 0 < Cycle.total pairs) (time : Nat → Nat) (k : Nat) :
    yieldsAt .sequence (fun _ => Cycle.listed pairs) time k = Cycle.valueAt pairs
        (elapsed (time 0) (time k) % Number.sum (pairs.map Prod.snd)) ∧
      beforeAt .sequence (fun _ => Cycle.listed pairs) time (k + 1) =
        .cycle ⟨some (time 0)⟩ := by
  induction k with
  | zero =>
    have hfirst : beforeAt .sequence (fun _ => Cycle.listed pairs) time 0 =
        .cycle ⟨Option.none⟩ := rfl
    have h := sequence_evaluation hfirst
    rwa [Cycle.step_eq hpairs hperiod hpos] at h
  | succ k ih =>
    have h := sequence_evaluation ih.2
    rwa [Cycle.step_eq hpairs hperiod hpos] at h

/-- A sequence of whole durations that are not negative, and not all zero, shows the value of the
only pair whose turn it is at the time since the first evaluation, modulo the total. That pair has a
duration, and the search finds it. The times need to stay in the exact range of numbers only
relative to the first one. -/
theorem sequence_shows {pairs : List (Number × Number)} {time : Nat → Nat}
    (hwhole : ∀ pair ∈ pairs, pair.2.isWhole = true ∧ 0 ≤ pair.2)
    (hpos : 0 < Cycle.total pairs) (hsmall : Cycle.total pairs < 2 ^ (53 : Nat))
    (hnear : ∀ k, time k - time 0 < 2 ^ (53 : Nat)) (k : Nat) :
    let phase := (time k - time 0) % Cycle.total pairs
    ∃ i pair, pairs[i]? = some pair ∧ (∀ j, Cycle.IsShown pairs phase j ↔ j = i) ∧
      0 < Cycle.millis pair.2 ∧
      Cycle.find (elapsed (time 0) (time k) % Number.sum (pairs.map Prod.snd)) 0 pairs =
        some pair.1 ∧
      yieldsAt .sequence (fun _ => Cycle.listed pairs) time k = some pair.1 := by
  intro phase
  have hpairs : ∀ pair ∈ pairs, pair.2.Counts (Cycle.millis pair.2) := by
    intro pair hmem
    exact Number.counts_of_isWhole (hwhole pair hmem).1 (hwhole pair hmem).2
  have hperiod : (Number.sum (pairs.map Prod.snd)).Counts (Cycle.total pairs) := by
    have htotal : Cycle.total pairs = ((pairs.map Prod.snd).map Cycle.millis).sum := by
      rw [List.map_map]
      rfl
    rw [htotal] at hsmall ⊢
    refine Number.counts_sum ?_ (Nat.le_of_lt hsmall)
    intro duration hmem
    rcases List.mem_map.mp hmem with ⟨pair, hpair, rfl⟩
    exact hpairs pair hpair
  have hoffset : (elapsed (time 0) (time k) % Number.sum (pairs.map Prod.snd)).Counts phase :=
    (counts_elapsed (Nat.le_of_lt (hnear k))).mod hperiod hpos (Nat.le_of_lt (hnear k))
  rcases Cycle.find_eq hoffset Number.counts_zero hpairs (by omega) (Nat.zero_le phase)
    (by rw [Nat.zero_add]; exact Nat.mod_lt _ hpos) with ⟨i, pair, hpair, hbegun, hended, hfind⟩
  rw [Nat.zero_add] at hbegun hended
  have hshown : Cycle.IsShown pairs phase i := ⟨hbegun, hended⟩
  refine ⟨i, pair, hpair, ?_, hshown.millis_pos hpair, hfind, ?_⟩
  · intro j
    constructor
    · intro hj
      exact hj.unique hshown
    · rintro rfl
      exact hshown
  · rw [(sequence_anchored hpairs hperiod hpos time k).1, Cycle.valueAt]
    exact congrArg (fun found => found.or (pairs.getLast?.map (·.1))) hfind

/-- Past `2 ^ 53` milliseconds of uptime, with a pair that has no duration before the one shown. -/
theorem sequence_shows_after_long_uptime :
    let pairs : List (Number × Number) := [(1, 100), (2, 0), (3, 50)]
    let time (k : Nat) := 2 ^ (60 : Nat) + min (k * 40) 1000
    (∀ pair ∈ pairs, pair.2.isWhole = true ∧ 0 ≤ pair.2) ∧ 0 < Cycle.total pairs ∧
      Cycle.total pairs < 2 ^ (53 : Nat) ∧ (∀ k, time k - time 0 < 2 ^ (53 : Nat)) ∧
      let phase := (time 7 - time 0) % Cycle.total pairs
      ∃ i pair, pairs[i]? = some pair ∧ (∀ j, Cycle.IsShown pairs phase j ↔ j = i) ∧
        0 < Cycle.millis pair.2 ∧
        Cycle.find (elapsed (time 0) (time 7) % Number.sum (pairs.map Prod.snd)) 0 pairs =
          some pair.1 ∧
        yieldsAt .sequence (fun _ => Cycle.listed pairs) time 7 = some pair.1 := by
  intro pairs time
  have hwhole : ∀ pair ∈ pairs, pair.2.isWhole = true ∧ 0 ≤ pair.2 := by decide +kernel
  have hpos : 0 < Cycle.total pairs := by decide +kernel
  have hsmall : Cycle.total pairs < 2 ^ (53 : Nat) := by decide +kernel
  have hnear : ∀ k, time k - time 0 < 2 ^ (53 : Nat) := by
    intro k
    show 2 ^ (60 : Nat) + min (k * 40) 1000 - (2 ^ (60 : Nat) + min (0 * 40) 1000) < 2 ^ (53 : Nat)
    omega
  exact ⟨hwhole, hpos, hsmall, hnear, sequence_shows hwhole hpos hsmall hnear 7⟩

end Memory

end PortLogic
