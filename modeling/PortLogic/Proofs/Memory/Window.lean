import PortLogic.Proofs.Memory.Latest
import PortLogic.Proofs.Number.Whole
import PortLogic.Proofs.Smoothing

/-!
# PortLogic.Proofs.Memory.Window — moving averages and medians of accepted values

A window accepts the value of its first evaluation, and after it those of evaluations that are at
least the sampling interval after the last accepted one. With a constant width it holds the last
accepted values, as many as the width says (`window_latest`), so an average and a median are
functions of these, as far as they are finite (`window_of_accepted`). With any widths it never holds
more than the last width.
-/

namespace PortLogic

namespace Memory

variable {value widths intervals : Nat → Number} {t : Timeline} {width interval : Number} {k : Nat}

namespace Window

/-- How many values a window of a width holds: as many as its whole part, at most the history limit
and at least one. -/
def capacity (width : Number) : Nat :=
  Max.max 1 (width.toNatWithin historyLimit)

theorem widthOf_eq (width : Number) : widthOf width = capacity width :=
  Number.toNatWithin_max_one (by decide) width

/-- Whether the sampling interval has passed since the last accepted value. -/
def isDue (m : Window) (interval : Number) (now : Nat) : Bool :=
  match m.sampledAt with
  | .none => true
  | .some since => decide (interval ≤ elapsed since now)

theorem accept_eq (m : Window) (x width interval : Number) (now : Nat) :
    m.accept x width interval now =
      if m.isDue interval now then ⟨lastOf (capacity width) (m.history ++ [x]), some now⟩
      else ⟨lastOf (capacity width) m.history, m.sampledAt⟩ := by
  have hnext : m.accept x width interval now =
      let next : Window := if m.isDue interval now then ⟨m.history ++ [x], some now⟩ else m
      ⟨lastOf (widthOf width) next.history, next.sampledAt⟩ := rfl
  rw [hnext, widthOf_eq]
  split <;> rfl

/-- A window never keeps more values than its width admits. -/
theorem accept_length_le (m : Window) (x width interval : Number) (now : Nat) :
    (m.accept x width interval now).history.length ≤ capacity width := by
  rw [accept_eq]
  split
  · exact lastOf_length_le _ _
  · exact lastOf_length_le _ _

theorem capacity_pos (width : Number) : 0 < capacity width :=
  Nat.le_max_left _ _

theorem capacity_le (width : Number) : capacity width ≤ 32 :=
  Nat.max_le.mpr ⟨by decide, Number.toNatWithin_le historyLimit width⟩

/-- What a function yields for the values of its window. -/
def summary (f : Func) (history : List Number) : Value :=
  if f = .fmMedian then Number.median? history
  else if history = [] then Option.none else some (Number.mean history)

/-- Whether the sampling interval has passed between two evaluations. -/
def replaces (t : Timeline) (interval : Number) (j k : Nat) : Bool :=
  interval.isAtMost (t.time k - t.time j)

/-- The evaluations up to a given one whose values are accepted: the first one, and each later one
that is at least the sampling interval after the last accepted one. -/
def accepted (t : Timeline) (interval : Number) (k : Nat) : List Nat :=
  chosen (replaces t interval) k

theorem isDue_eq (history : List Number) (interval : Number) (j k : Nat) :
    isDue ⟨history, some (t.time j)⟩ interval (t.time k) = replaces t interval j k := by
  show decide (interval ≤ elapsed (t.time j) (t.time k)) = replaces t interval j k
  rw [Bool.eq_iff_iff, decide_eq_true_eq, le_elapsed_iff (t.bounded k)]
  rfl

/-- After a window of the last accepted values, the next evaluation has one as well. -/
theorem accept_latest (value : Nat → Number) (t : Timeline) (width interval : Number) (k : Nat) :
    accept ⟨lastOf (capacity width) ((accepted t interval k).map value),
        some (t.time (latest (replaces t interval) k))⟩ (value (k + 1)) width interval
        (t.time (k + 1)) =
      ⟨lastOf (capacity width) ((accepted t interval (k + 1)).map value),
        some (t.time (latest (replaces t interval) (k + 1)))⟩ := by
  rw [accept_eq, isDue_eq]
  unfold accepted
  rw [chosen_succ]
  cases h : replaces t interval (latest (replaces t interval) k) (k + 1) with
  | true =>
    rw [latest_of_replaces h, if_pos rfl, if_pos rfl, List.map_append, lastOf_append_singleton]
    rfl
  | false =>
    rw [latest_of_not_replaces h, if_neg Bool.false_ne_true, if_neg Bool.false_ne_true,
      List.append_nil, lastOf_of_length_le (lastOf_length_le _ _)]

end Window

/-! ## Runs -/

section Runs

variable {f : Func} (hf : f = .fmAvg ∨ f = .fmMedian)

include hf

theorem window_evaluation {m : Window}
    (h : before f (fun k => [value k, widths k, intervals k]) t k = .window m) :
    let next := m.accept (value k) (widths k) (intervals k) (t.time k)
    yields f (fun k => [value k, widths k, intervals k]) t k = Window.summary f next.history ∧
      before f (fun k => [value k, widths k, intervals k]) t (k + 1) = .window next := by
  refine evaluation ?_
  rw [h]
  rcases hf with rfl | rfl <;> rfl

theorem exists_window (value widths intervals : Nat → Number) (t : Timeline) (k : Nat) :
    ∃ m, before f (fun k => [value k, widths k, intervals k]) t k = .window m := by
  induction k with
  | zero => rcases hf with rfl | rfl <;> exact ⟨_, rfl⟩
  | succ k ih =>
    rcases ih with ⟨m, hm⟩
    exact ⟨_, (window_evaluation hf hm).2⟩

/-- With a constant width and interval, a window holds the last accepted values. -/
theorem window_latest (value : Nat → Number) (t : Timeline) (width interval : Number) (k : Nat) :
    let recent := lastOf (Window.capacity width) ((Window.accepted t interval k).map value)
    yields f (fun k => [value k, width, interval]) t k = Window.summary f recent ∧
      before f (fun k => [value k, width, interval]) t (k + 1) =
        .window ⟨recent, some (t.time (latest (Window.replaces t interval) k))⟩ := by
  induction k with
  | zero =>
    have hfirst : before f (fun k => [value k, width, interval]) t 0 =
        .window ⟨[], Option.none⟩ := by
      rcases hf with rfl | rfl <;> rfl
    rcases window_evaluation hf hfirst with ⟨hyields, hnext⟩
    rw [hyields, hnext, Window.accept_eq]
    exact ⟨rfl, rfl⟩
  | succ k ih =>
    rcases window_evaluation hf ih.2 with ⟨hyields, hnext⟩
    rw [hyields, hnext, Window.accept_latest]
    exact ⟨rfl, rfl⟩

end Runs

section Evaluations

variable [Power]

/-- After every evaluation, whatever the widths and intervals so far, a function keeps no more
values than the width of that evaluation admits, and never more than the history limit. -/
def Window.Bounded (f : Func) (now : Nat → Now) : Prop :=
  ∀ (value widths intervals : Nat → Number) (k : Nat), ∃ m,
    (runs f (fun k => [value k, widths k, intervals k]) now k).2 = .window m ∧
      m.history.length ≤ Window.capacity (widths k) ∧ m.history.length ≤ 32

theorem window_bounded {f : Func} (hf : f = .fmAvg ∨ f = .fmMedian) (t : Timeline)
    (wall : Nat → Option Nat) : Window.Bounded f (t.now wall) := by
  intro value widths intervals k
  have hstateful : initial f ≠ .none := by
    rcases hf with rfl | rfl <;> decide
  rcases exists_window hf value widths intervals t k with ⟨m, hm⟩
  have hlength := m.accept_length_le (value k) (widths k) (intervals k) (t.time k)
  rw [runs_timeline hstateful]
  exact ⟨_, (window_evaluation hf hm).2, hlength,
    Nat.le_trans hlength (Window.capacity_le (widths k))⟩

/-- With a constant width and sampling interval, an average is the sum of the last accepted values
in their order, divided by their count, and a median the number of rank half their count in
ascending order. They are as many as the width admits, or all while these are fewer. A result that
is not finite is undefined: the sum of finite values can be too large for an average, but a median
of them is always one of them. With any widths the history stays within the current width and the
history limit. -/
theorem window_of_accepted (t : Timeline) (wall : Nat → Option Nat) :
    (∀ (value : Nat → Number) (width interval : Number) (k : Nat),
      let samples := (Window.accepted t interval k).map value
      let result (f : Func) := (runs f (fun k => [value k, width, interval]) (t.now wall) k).1
      ∃ recent, recent <:+ samples ∧
        recent.length = min (Window.capacity width) samples.length ∧
        result .fmAvg = (Number.sum recent / Number.ofNat recent.length).finite? ∧
        ∃ x, Filter.IsMedian recent.length recent x ∧ result .fmMedian = x.finite? ∧
          ((∀ y ∈ recent, y.isFinite = true) → result .fmMedian = some x)) ∧
      Window.Bounded .fmAvg (t.now wall) ∧ Window.Bounded .fmMedian (t.now wall) := by
  refine ⟨?_, window_bounded (.inl rfl) t wall, window_bounded (.inr rfl) t wall⟩
  intro value width interval k samples result
  have hlength := lastOf_length (Window.capacity width) samples
  have hsamples : 0 < samples.length := by
    rw [List.length_map]
    exact List.length_pos_of_ne_nil (chosen_ne_nil k)
  have hpos : 0 < (lastOf (Window.capacity width) samples).length := by
    have hcapacity := Window.capacity_pos width
    omega
  -- an evaluation adds the finite check to the summary of the window
  have hresult {f : Func} (hf : f = .fmAvg ∨ f = .fmMedian) : result f =
      (Window.summary f (lastOf (Window.capacity width) samples)).bind Number.finite? := by
    have hstateful : initial f ≠ .none := by
      rcases hf with rfl | rfl <;> decide
    show (runs f _ (t.now wall) k).1 = _
    rw [runs_timeline hstateful, (window_latest hf value t width interval k).1]
  rcases Filter.exists_median hpos with ⟨x, hx, hmedian⟩
  have hrank : result .fmMedian = x.finite? := by
    rw [hresult (.inr rfl), Window.summary, if_pos rfl, hx, Option.bind_some]
  refine ⟨lastOf (Window.capacity width) samples, List.drop_suffix _ _, hlength, ?_, x, hmedian,
    hrank, ?_⟩
  · rw [hresult (.inl rfl), Window.summary, if_neg (by decide),
      if_neg (List.ne_nil_of_length_pos hpos), Option.bind_some]
    rfl
  · intro hfinite
    rcases hmedian with ⟨ascending, hperm, -, hget⟩
    rw [hrank, Number.finite?, if_pos (hfinite x (hperm.subset (List.mem_of_getElem? hget)))]

end Evaluations

attribute [local instance] Power.rounded

/-- Of four evaluations the first and the third are accepted, and at a width of two the last one
summarises their values. -/
theorem window_of_accepted_third :
    let t : Timeline := ⟨fun k => min (k * 40) 1000, by omega, by omega⟩
    let result (f : Func) :=
      (runs f (fun k => [.ofNat (10 * k), 2, 80]) (t.now fun _ => Option.none) 3).1
    result .fmAvg = some 10 ∧
      ∃ x, Filter.IsMedian 2 [0, 20] x ∧ result .fmMedian = some x := by
  intro t result
  rcases (window_of_accepted t fun _ => Option.none).1 (fun k => .ofNat (10 * k)) 2 80 3 with
    ⟨recent, hsuffix, hlength, haverage, x, hmedian, -, hfinite⟩
  have hsamples : (Window.accepted t 80 3).map (fun k => Number.ofNat (10 * k)) = [0, 20] := by
    decide +kernel
  have hcapacity : Window.capacity 2 = 2 := by
    decide +kernel
  simp only [hsamples, hcapacity] at hsuffix hlength
  obtain rfl : recent = [0, 20] := hsuffix.eq_of_length hlength
  have htwenty : ∀ y ∈ [(0 : Number), 20], y.isFinite = true := by
    decide +kernel
  exact ⟨haverage.trans (by decide +kernel), x, hmedian, hfinite htwenty⟩

/-- Two values whose sum is too large have no average. -/
theorem average_of_overflow :
    ¬∀ (t : Timeline) (wall : Nat → Option Nat) (value : Nat → Number) (width interval : Number)
      (k : Nat), ∃ recent, recent <:+ (Window.accepted t interval k).map value ∧
        recent.length = min (Window.capacity width) (Window.accepted t interval k).length ∧
        (runs .fmAvg (fun k => [value k, width, interval]) (t.now wall) k).1 =
          some (Number.sum recent / Number.ofNat recent.length) := by
  intro h
  let t : Timeline := ⟨fun k => min k 1000, by omega, by omega⟩
  let x := Number.ofNat (17 * 10 ^ (307 : Nat))
  have hnone :
      (runs .fmAvg (fun _ => [x, 2, 0]) (t.now fun _ => Option.none) 1).1 = Option.none := by
    decide +kernel
  rcases h t (fun _ => Option.none) (fun _ => x) 2 0 1 with ⟨recent, -, -, hsome⟩
  cases hnone.symm.trans hsome

-- a width of 2.5 and an interval of 80 milliseconds, with a value that grows by one every 40
example :
    let t : Timeline := ⟨fun k => min (k * 40) 1000, by omega, by omega⟩
    (List.range 6).map (fun k =>
        (runs .fmAvg (fun k => [.ofNat k, .ofNat 5 / 2, 80]) (t.now fun _ => Option.none) k).1) =
      [some 0, some 0, some 1, some 1, some 3, some 3] := by
  decide +kernel

end Memory

end PortLogic
