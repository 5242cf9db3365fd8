import Mathlib.Data.List.TakeDrop
import PortLogic.Proofs.Memory.Trace
import PortLogic.Proofs.Number.Whole
import PortLogic.Proofs.Recent

/-!
# PortLogic.Proofs.Memory.Delay — a delay releases each change once

A delay queues the changes of its value. A change is *due* once its delay has passed, and *pending*
until an evaluation finds it due. Times do not go back, so what is due among the pending changes is
a prefix of them, and the queue holds the last pending changes, as many as fit (`Waits`). What an
evaluation yields is therefore the latest pending change that is due, and it is not pending
afterwards (`delay_releases`).
-/

namespace PortLogic

namespace Memory

namespace Delay

variable (value : Nat → Number) (t : Timeline) (d : Number)

/-! ## Changes -/

/-- Whether the value of an evaluation differs from the one before. -/
def isChange (k : Nat) : Bool :=
  decide (0 < k) && !(value (k - 1) == value k)

/-- Whether the delay from one evaluation to another has passed. -/
def isDue (k i : Nat) : Bool :=
  d.isAtMost (t.time k - t.time i)

/-- Whether a change has been due at no evaluation before a given one. -/
def isPending (k i : Nat) : Bool :=
  isChange value i && !(List.range k).any fun j => decide (i ≤ j) && isDue t d j i

/-- The changes up to an evaluation that no evaluation before it has found due: they wait when the
evaluation has recorded its own change and has yet to release any. -/
def pending (k : Nat) : List Nat :=
  (List.range (k + 1)).filter (isPending value t d k)

/-- The change of an earlier evaluation, or of this one, is due and has not been due before. -/
structure Expires (k i : Nat) : Prop where
  le : i ≤ k
  change : isChange value i = true
  due : isDue t d k i = true
  fresh : ∀ j, i ≤ j → j < k → isDue t d j i = false

variable {value t d} {i j k : Nat}

/-- An earlier change is due as well. -/
theorem isDue_of_le (h : i ≤ j) (hdue : isDue t d k j = true) : isDue t d k i = true :=
  Number.isAtMost_mono (Nat.sub_le_sub_left (t.ordered h) _) hdue

theorem isPending_iff : isPending value t d k i = true ↔
    isChange value i = true ∧ ∀ j, i ≤ j → j < k → isDue t d j i = false := by
  unfold isPending
  rw [Bool.and_eq_true, Bool.not_eq_true', List.any_eq_false]
  refine and_congr_right fun _ => forall_congr' fun j => ?_
  rw [List.mem_range, Bool.and_eq_true, decide_eq_true_eq, not_and, Bool.not_eq_true]
  exact ⟨fun h hle hlt => h hlt hle, fun h hlt hle => h hle hlt⟩

theorem mem_pending : i ∈ pending value t d k ↔
    i ≤ k ∧ isChange value i = true ∧ ∀ j, i ≤ j → j < k → isDue t d j i = false := by
  unfold pending
  rw [List.mem_filter, List.mem_range, isPending_iff, Nat.lt_succ_iff]

/-- A change expires when it is pending and due. -/
theorem expires_iff :
    Expires value t d k i ↔ i ∈ pending value t d k ∧ isDue t d k i = true := by
  rw [mem_pending]
  constructor
  · intro h
    exact ⟨⟨h.le, h.change, h.fresh⟩, h.due⟩
  · rintro ⟨⟨hle, hchange, hfresh⟩, hdue⟩
    exact ⟨hle, hchange, hdue, hfresh⟩

theorem pending_pairwise (k : Nat) : (pending value t d k).Pairwise (· < ·) :=
  List.pairwise_lt_range.filter _

/-- What is due among ascending changes is a prefix of them. -/
theorem descends_isDue {changes : List Nat} (h : changes.Pairwise (· < ·)) (k : Nat) :
    Descends (isDue t d k) changes :=
  h.imp fun hlt hdue => isDue_of_le (Nat.le_of_lt hlt) hdue

theorem pending_zero : pending value t d 0 = [] := by
  rw [List.eq_nil_iff_forall_not_mem]
  intro i hi
  rcases mem_pending.mp hi with ⟨hle, hchange, -⟩
  obtain rfl := Nat.le_zero.mp hle
  cases hchange

theorem isPending_succ (h : i ≤ k) :
    isPending value t d (k + 1) i = (!isDue t d k i && isPending value t d k i) := by
  rw [Bool.eq_iff_iff, Bool.and_eq_true, Bool.not_eq_true', isPending_iff, isPending_iff]
  constructor
  · rintro ⟨hchange, hfresh⟩
    refine ⟨hfresh k h (Nat.lt_succ_self k), hchange, ?_⟩
    intro j hle hlt
    exact hfresh j hle (Nat.lt_succ_of_lt hlt)
  · rintro ⟨hlast, hchange, hfresh⟩
    refine ⟨hchange, ?_⟩
    intro j hle hlt
    rcases Nat.lt_or_eq_of_le (Nat.le_of_lt_succ hlt) with hbefore | rfl
    · exact hfresh j hle hbefore
    · exact hlast

/-- The change of an evaluation itself is pending when it is recorded. -/
theorem isPending_self (k : Nat) : isPending value t d k k = isChange value k := by
  rw [Bool.eq_iff_iff, isPending_iff]
  refine and_iff_left ?_
  intro j hle hlt
  omega

/-- An evaluation leaves the pending changes that it does not find due, and the next one may add
its own. -/
theorem pending_succ (k : Nat) : pending value t d (k + 1) =
    ((pending value t d k).filter fun i => !isDue t d k i) ++
      if isChange value (k + 1) then [k + 1] else [] := by
  have hkept : (List.range (k + 1)).filter (isPending value t d (k + 1)) =
      (pending value t d k).filter fun i => !isDue t d k i := by
    unfold pending
    rw [List.filter_filter]
    refine List.filter_congr fun i hi => ?_
    exact isPending_succ (Nat.le_of_lt_succ (List.mem_range.mp hi))
  rw [pending, List.range_succ, List.filter_append, hkept, List.filter_cons, List.filter_nil,
    isPending_self]

/-! ## The queue -/

/-- The entry of a change in the queue. -/
def entry (value : Nat → Number) (t : Timeline) (i : Nat) : Number × Nat :=
  (value i, t.time i)

theorem step_eq (m : Delay) (x delay : Number) (now : Nat) :
    m.step x delay now =
      ((((m.record x now).takeWhile fun entry => delay ≤ elapsed entry.2 now).getLast?).map (·.1),
        ⟨some x, (m.record x now).dropWhile fun entry => delay ≤ elapsed entry.2 now⟩) := by
  unfold step
  simp only [List.span_eq_takeWhile_dropWhile]

/-- Below the end of the exact range, an entry has expired when its change is due. -/
theorem expired_entry (k : Nat) :
    ((fun entry : Number × Nat => decide (d ≤ elapsed entry.2 (t.time k))) ∘ entry value t) =
      isDue t d k := by
  funext i
  show decide (d ≤ elapsed (t.time i) (t.time k)) = isDue t d k i
  rw [Bool.eq_iff_iff, decide_eq_true_eq, le_elapsed_iff (t.bounded k)]
  rfl

/-- The value of the evaluation before, when there is one. -/
def seen (value : Nat → Number) : Nat → Option Number
  | 0 => Option.none
  | k + 1 => some (value k)

variable (value t d) in
/-- Once an evaluation has recorded its change, the queue holds the last pending changes. -/
structure Waits (k : Nat) (m : Delay) : Prop where
  last : m.last = seen value k
  recorded : m.record (value k) (t.time k) =
    (lastOf historyLimit (pending value t d k)).map (entry value t)
  small : m.queue.length ≤ historyLimit

variable {m : Delay}

theorem Waits.recorded_length (h : Waits value t d k m) :
    (m.record (value k) (t.time k)).length ≤ historyLimit := by
  rw [h.recorded, List.length_map]
  exact lastOf_length_le _ _

/-- A queue of the last changes that wait, and the change of the next evaluation. -/
theorem record_waiting (k : Nat) (waiting : List Nat) :
    record ⟨some (value k), (lastOf historyLimit waiting).map (entry value t)⟩ (value (k + 1))
        (t.time (k + 1)) =
      (lastOf historyLimit
        (waiting ++ if isChange value (k + 1) then [k + 1] else [])).map (entry value t) := by
  have hchange : isChange value (k + 1) = !(value k == value (k + 1)) := by
    unfold isChange
    rw [decide_eq_true (Nat.succ_pos k), Bool.true_and, Nat.add_sub_cancel]
  unfold record
  simp only [hchange]
  cases hsame : value k == value (k + 1) with
  | true => rw [if_pos rfl, Bool.not_true, if_neg Bool.false_ne_true, List.append_nil]
  | false =>
    rw [if_neg Bool.false_ne_true, Bool.not_false, if_pos rfl, ← lastOf_append_singleton,
      lastOf_append_singleton_of_le (by decide) (lastOf_length_le _ _), List.length_map,
      List.map_append]
    congr 1
    split
    · rw [List.map_drop]
    · rfl

theorem waits_initial : Waits value t d 0 ⟨Option.none, []⟩ where
  last := rfl
  recorded := by
    rw [pending_zero, lastOf_nil]
    rfl
  small := Nat.zero_le _

/-- The next evaluation finds the changes that are still pending. -/
theorem Waits.next (h : Waits value t d k m) :
    Waits value t d (k + 1) (m.step (value k) d (t.time k)).2 := by
  have hpending : Descends (isDue t d k) (pending value t d k) :=
    descends_isDue (pending_pairwise k) k
  have hlast : Descends (isDue t d k) (lastOf historyLimit (pending value t d k)) :=
    hpending.sublist (lastOf_sublist _ _)
  have hqueue : (m.step (value k) d (t.time k)).2 = ⟨some (value k), (lastOf historyLimit
      ((pending value t d k).filter fun i => !isDue t d k i)).map (entry value t)⟩ := by
    rw [step_eq, h.recorded, List.dropWhile_map, expired_entry, hlast.dropWhile_eq,
      hpending.filter_lastOf]
  rw [hqueue]
  refine ⟨rfl, ?_, ?_⟩
  · rw [record_waiting, pending_succ]
  · show ((lastOf historyLimit _).map _).length ≤ historyLimit
    rw [List.length_map]
    exact lastOf_length_le _ _

/-! ## Releases -/

variable (value t d) in
/-- The change that an evaluation releases: the latest one in the queue that is due. -/
def released (k : Nat) : Option Nat :=
  ((lastOf historyLimit (pending value t d k)).filter (isDue t d k)).getLast?

/-- An evaluation yields the value of the change that it releases. -/
theorem Waits.yields (h : Waits value t d k m) :
    (m.step (value k) d (t.time k)).1 = (released value t d k).map value := by
  have hdescends : Descends (isDue t d k) (lastOf historyLimit (pending value t d k)) :=
    descends_isDue ((pending_pairwise k).sublist (lastOf_sublist _ _)) k
  rw [step_eq, h.recorded, List.takeWhile_map, expired_entry, hdescends.takeWhile_eq,
    List.getLast?_map, Option.map_map]
  rfl

/-- What is released expires. -/
theorem expires_of_released (h : released value t d k = some i) : Expires value t d k i := by
  rcases List.mem_filter.mp (List.mem_of_getLast? h) with ⟨hmem, hdue⟩
  exact expires_iff.mpr ⟨(lastOf_sublist _ _).subset hmem, hdue⟩

/-- Changes are released in their order, each at one evaluation. -/
theorem released_lt {a b : Nat} (hjk : j < k) (ha : released value t d j = some a)
    (hb : released value t d k = some b) : a < b := by
  have hfirst := expires_of_released ha
  have hsecond := expires_of_released hb
  by_contra hle
  -- otherwise the second one was due as well when the first one was released
  have hdue := isDue_of_le (Nat.le_of_not_lt hle) hfirst.due
  rw [hsecond.fresh j (Nat.le_trans (Nat.le_of_not_lt hle) hfirst.le) hjk] at hdue
  cases hdue

/-- Where the pending changes fit, the latest change that expires is released. -/
theorem released_of_expires (hfits : (pending value t d k).length ≤ historyLimit)
    (h : Expires value t d k i) : ∃ latest, released value t d k = some latest ∧ i ≤ latest := by
  rcases expires_iff.mp h with ⟨hpending, hdue⟩
  unfold released
  rw [lastOf_of_length_le hfits]
  exact le_getLast?_of_mem ((pending_pairwise k).filter _) (List.mem_filter.mpr ⟨hpending, hdue⟩)

end Delay

/-! ## Runs -/

variable {value : Nat → Number} {t : Timeline} {d : Number}

theorem delay_evaluation {k : Nat} {m : Delay}
    (h : before .delay (fun k => [value k, d]) t k = .delay m) :
    yields .delay (fun k => [value k, d]) t k = (m.step (value k) d (t.time k)).1 ∧
      before .delay (fun k => [value k, d]) t (k + 1) =
        .delay (m.step (value k) d (t.time k)).2 := by
  refine evaluation ?_
  rw [h]
  rfl

/-- Before every evaluation the memory of a delay is a queue of changes that wait. -/
theorem exists_waits (value : Nat → Number) (t : Timeline) (d : Number) (k : Nat) :
    ∃ m, before .delay (fun k => [value k, d]) t k = .delay m ∧ Delay.Waits value t d k m := by
  induction k with
  | zero => exact ⟨_, rfl, Delay.waits_initial⟩
  | succ k ih =>
    rcases ih with ⟨m, hbefore, hwaits⟩
    exact ⟨_, (delay_evaluation hbefore).2, hwaits.next⟩

/-- The queue of a delay is bounded, also while a change is recorded. What its evaluations yield are
the values of changes, in their order and each once, that are due and have not been due at any
evaluation before. Where at most as many changes are pending as the queue holds, it is the latest
such change, and there is one when there is such a change. -/
theorem delay_releases (value : Nat → Number) (t : Timeline) (d : Number) :
    (∀ k, ∃ m, before .delay (fun k => [value k, d]) t k = .delay m ∧
      m.queue.length ≤ 32 ∧ (m.record (value k) (t.time k)).length ≤ 32) ∧
      ∃ released : Nat → Option Nat,
        (∀ k, yields .delay (fun k => [value k, d]) t k = (released k).map value) ∧
        (∀ k i, released k = some i → Delay.Expires value t d k i) ∧
        (∀ j k a b, j < k → released j = some a → released k = some b → a < b) ∧
        ∀ k, (Delay.pending value t d k).length ≤ 32 → ∀ i, Delay.Expires value t d k i →
          ∃ latest, released k = some latest ∧ i ≤ latest := by
  refine ⟨?_, Delay.released value t d, ?_, ?_, ?_, ?_⟩
  · intro k
    rcases exists_waits value t d k with ⟨m, hbefore, hwaits⟩
    exact ⟨m, hbefore, hwaits.small, hwaits.recorded_length⟩
  · intro k
    rcases exists_waits value t d k with ⟨m, hbefore, hwaits⟩
    rw [(delay_evaluation hbefore).1, hwaits.yields]
  · intro k i
    exact Delay.expires_of_released
  · intro j k a b
    exact Delay.released_lt
  · intro k hfits i
    exact Delay.released_of_expires hfits

end Memory

-- two changes, at 40 and at 120 milliseconds, with a delay of 100
example :
    let t : Timeline := ⟨fun k => min (k * 40) 1000, by omega, by omega⟩
    let value (k : Nat) : Number := if k = 0 then 0 else if k < 3 then 1 else 2
    (List.range 8).map (Memory.yields .delay (fun k => [value k, 100]) t) =
      [none, none, none, none, some 1, none, some 2, none] := by
  decide +kernel

end PortLogic
