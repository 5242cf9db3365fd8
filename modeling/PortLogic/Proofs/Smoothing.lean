import Mathlib.Data.List.Induction
import PortLogic.Filter
import PortLogic.Number.Power
import PortLogic.Proofs.Number.Order
import PortLogic.Proofs.Recent

/-!
# PortLogic.Proofs.Smoothing — filters are functions of what was pushed

A filter slides its window sample by sample. The window is what a reader of the whole history would
take: the last samples since the last reset, as many as the filter is wide (`Filter.Remembers`). So
a push yields a function of the history (`Filter.push_smooths`): nothing until as many samples as
the width were pushed, and then the majority, the median or the rounded mean of the last ones.
-/

namespace PortLogic

-- powers of naturals are the built-in ones, whatever algebra is in scope
attribute [local instance (2000)] instPowNat

/-! ## Rounding like a transform -/

namespace Expr

variable [Power]

/-- The rounding that the outermost call of an expression stands for, when that call rounds and its
further arguments are literals. -/
def rounding? : Expr → Option (Number → Number)
  | .call func _ args =>
    match func, args.drop 1 with
    | .floor, [] => some Number.floor
    | .ceil, [] => some Number.ceil
    | .round, [] => some Number.roundHalfAway
    | .round, [.literal places] => some fun x =>
      Decimals.roundTo x (places.toIntWithin (-Decimals.maxPlaces) Decimals.maxPlaces)
    | _, _ => none
  | _ => none

omit [Power] in
theorem literals?_eq_some {es : List Expr} {xs : List Number} (h : literals? es = some xs) :
    es = xs.map .literal := by
  induction es generalizing xs with
  | nil =>
    rw [← Option.some.inj (h : some [] = some xs)]
    rfl
  | cons e es ih =>
    cases e with
    | literal x =>
      rcases Option.map_eq_some_iff.mp h with ⟨rest, hrest, rfl⟩
      rw [ih hrest]
      rfl
    | _ => cases h

/-- A rounding is taken over where it gives a finite number. -/
theorem roundLike_eq (e : Expr) (x : Number) :
    e.roundLike x = e.rounding?.bind fun round => (round x).finite? := by
  cases e with
  | literal y => rfl
  | port id => rfl
  | call func memory args =>
    unfold roundLike rounding?
    simp only
    cases hliterals : literals? (args.drop 1) with
    | none =>
      -- each rounding there is comes from literals
      rw [Option.bind_none, ite_self]
      split
      all_goals first | rfl | (rename_i heq; rw [heq] at hliterals; cases hliterals)
    | some xs =>
      rw [literals?_eq_some hliterals]
      rcases xs with _ | ⟨p, _ | ⟨q, rest⟩⟩ <;> cases func <;> rfl

/-- Rounds a number as a transform does, where that gives a finite number. -/
def roundedLike (transform : Option Expr) (x : Number) : Number :=
  match transform.bind rounding? with
  | none => x
  | some round => if (round x).isFinite then round x else x

theorem roundedMean_eq (transform : Option Expr) (window : List Number) :
    Filter.roundedMean transform window =
      roundedLike transform (Decimals.roundByMagnitude (Number.mean window)) := by
  unfold Filter.roundedMean roundedLike
  cases transform with
  | none => rfl
  | some e =>
    simp only [Option.bind_some, roundLike_eq]
    cases e.rounding? with
    | none => rfl
    | some round =>
      simp only [Option.bind_some, Number.finite?]
      split <;> rfl

end Expr

/-! ## Histories of a filter -/

namespace Filter

section

/-- What is done to a filter. -/
inductive Action where
  | push (sample : Number) (boolean : Bool) (transform : Option Expr)
  | reset

variable [Power]

/-- The filter after an action. -/
def act (f : Filter) : Action → Filter
  | .push sample boolean transform => (f.push sample boolean transform).2
  | .reset => f.reset

/-- The filter after a list of actions. -/
def after (f : Filter) (actions : List Action) : Filter :=
  actions.foldl act f

/-- The samples after an action. -/
def noted (samples : List Number) : Action → List Number
  | .push sample _ _ => samples ++ [sample]
  | .reset => []

/-- The samples that a list of actions has pushed since its last reset, oldest first. -/
def samplesOf (actions : List Action) : List Number :=
  actions.foldl noted []

/-- A filter of a width whose window holds the last samples of a history. -/
structure Remembers (kind : FilterKind) (w : Nat) (samples : List Number) (f : Filter) : Prop where
  kind : f.kind = kind
  width : f.width = w
  window : f.isActive = true → f.window = lastOf w samples

variable {kind : FilterKind} {w : Nat} {samples recent : List Number} {boolean : Bool}
  {transform : Option Expr} {f : Filter}

omit [Power] in
theorem Remembers.slide (h : Remembers kind w samples f) (hactive : f.isActive = true)
    (sample : Number) : f.slide sample = lastOf w (samples ++ [sample]) := by
  rw [← lastOf_append_singleton, ← h.window hactive, ← h.width]
  rfl

/-- An action is noted in the history. -/
theorem Remembers.act (h : Remembers kind w samples f) (action : Action) :
    Remembers kind w (noted samples action) (f.act action) := by
  cases action with
  | reset => exact ⟨h.kind, h.width, fun _ => (lastOf_nil w).symm⟩
  | push sample boolean transform =>
    show Remembers kind w (samples ++ [sample]) (f.push sample boolean transform).2
    unfold push
    split
    · next hactive => exact ⟨h.kind, h.width, fun _ => h.slide hactive sample⟩
    · next hidle => exact ⟨h.kind, h.width, fun hactive => absurd hactive hidle⟩

/-- A new filter remembers every list of actions. -/
theorem remembers_after (kind : FilterKind) (width : Nat) (actions : List Action) :
    Remembers kind (max 1 (min 32 width)) (samplesOf actions)
      ((ofWidth kind width).after actions) := by
  induction actions using List.reverseRecOn with
  | nil => exact ⟨rfl, rfl, fun _ => (lastOf_nil _).symm⟩
  | append_singleton rest action ih =>
    unfold samplesOf after
    rw [List.foldl_append, List.foldl_append]
    exact ih.act action

/-! ## What a push yields -/

/-- The number of rank half the width, counted from zero, of the samples in ascending order. -/
def IsMedian (w : Nat) (samples : List Number) (x : Number) : Prop :=
  ∃ ascending : List Number, ascending.Perm samples ∧
    (ascending.Pairwise fun x y => x.totalLe y = true) ∧ ascending[w / 2]? = some x

/-- What a full window is taken to. -/
inductive Summarises (w : Nat) (boolean : Bool) (transform : Option Expr) (recent : List Number) :
    FilterKind → Number → Prop where
  /-- Whether more than half of the samples are not zero. -/
  | majority {kind : FilterKind} (hboolean : boolean = true) :
    Summarises w boolean transform recent kind
      (if w < 2 * recent.countP (fun x => !(x == 0)) then 1 else 0)
  | median {x : Number} (hnumber : boolean = false) (hmedian : IsMedian w recent x) :
    Summarises w boolean transform recent .median x
  | average (hnumber : boolean = false) :
    Summarises w boolean transform recent .average (Expr.roundedLike transform
      (Decimals.roundByMagnitude (Number.sum recent / Number.ofNat w)))

omit [Power] in
/-- Samples have a median, unless there are none. -/
theorem exists_median (hne : 0 < samples.length) :
    ∃ x, Number.median? samples = some x ∧ IsMedian samples.length samples x := by
  have hlength : (samples.mergeSort Number.totalLe).length = samples.length :=
    List.length_mergeSort samples
  have hrank : samples.length / 2 < (samples.mergeSort Number.totalLe).length := by omega
  have hsorted : (samples.mergeSort Number.totalLe).Pairwise fun x y => x.totalLe y = true :=
    @List.pairwise_mergeSort _ Number.totalLe (fun _ _ _ => Number.totalLe_trans)
      Number.totalLe_total samples
  have hfound := List.getElem?_eq_getElem hrank
  exact ⟨_, hfound, samples.mergeSort Number.totalLe, List.mergeSort_perm samples _, hsorted,
    hfound⟩

/-- An active filter has a summary of every full window. -/
theorem Remembers.summary (h : Remembers kind w samples f) (hactive : kind ≠ .none) (hw : 0 < w)
    (hlength : recent.length = w) :
    ∃ x, f.summary boolean transform recent = some x ∧
      Summarises w boolean transform recent kind x := by
  unfold Filter.summary majority
  rw [h.kind, h.width]
  cases boolean with
  | true =>
    refine ⟨_, if_pos rfl, ?_⟩
    have hmajority : Summarises w true transform recent kind _ := .majority rfl
    rw [List.countP_eq_length_filter, Nat.mul_comm] at hmajority
    unfold Number.ofBool Number.isTrue
    simpa only [decide_eq_true_eq] using hmajority
  | false =>
    cases kind with
    | none => exact absurd rfl hactive
    | median =>
      rcases exists_median (hlength ▸ hw) with ⟨x, hx, hmedian⟩
      exact ⟨x, hx, .median rfl (hlength ▸ hmedian)⟩
    | average =>
      refine ⟨_, rfl, ?_⟩
      rw [Expr.roundedMean_eq, Number.mean, hlength]
      exact .average rfl

/-- A push yields the sample itself where there is no filter, nothing until as many samples as the
width were pushed since the last reset, and then a summary of that many last ones. -/
theorem push_smooths (kind : FilterKind) (width : Nat) (actions : List Action) (sample : Number)
    (boolean : Bool) (transform : Option Expr) :
    let w := max 1 (min 32 width)
    let samples := samplesOf actions ++ [sample]
    let value := (((ofWidth kind width).after actions).push sample boolean transform).1
    (kind = .none → value = some sample) ∧
      (kind ≠ .none → samples.length < w → value = none) ∧
      (kind ≠ .none → w ≤ samples.length → ∃ recent x, recent <:+ samples ∧ recent.length = w ∧
        value = some x ∧ Summarises w boolean transform recent kind x) := by
  intro w samples value
  have h : Remembers kind w (samplesOf actions) ((ofWidth kind width).after actions) :=
    remembers_after kind width actions
  have hvalue :
      value = (((ofWidth kind width).after actions).push sample boolean transform).1 := rfl
  generalize (ofWidth kind width).after actions = f at h hvalue
  have hlength : (lastOf w samples).length = min w samples.length := lastOf_length w samples
  -- under an active filter the value depends on the end of the history alone
  have hactive (hkind : kind ≠ .none) : value =
      if (lastOf w samples).length < w then none
      else f.summary boolean transform (lastOf w samples) := by
    have hon : f.isActive = true := by
      unfold isActive
      rw [h.kind, decide_eq_true hkind]
    rw [hvalue, push, if_pos hon]
    simp only [h.slide hon, h.width, samples]
  refine ⟨?_, ?_, ?_⟩
  · intro hkind
    have hoff : ¬f.isActive = true := by
      unfold isActive
      rw [h.kind, hkind]
      decide
    rw [hvalue, push, if_neg hoff]
  · intro hkind hfew
    rw [hactive hkind, if_pos (by omega)]
  · intro hkind hfull
    have hrecent : (lastOf w samples).length = w := by omega
    rcases h.summary hkind (by omega) hrecent with ⟨x, hx, hsummary⟩
    refine ⟨lastOf w samples, x, List.drop_suffix _ _, hrecent, ?_, hsummary⟩
    rw [hactive hkind, if_neg (by omega), hx]

end

attribute [local instance] Power.rounded

/-- A mean that is too large to be rounded to decimals is yielded as it is, and neither rounded nor
undefined as a call that rounds it. -/
theorem average_of_unroundable :
    let x := Number.ofNat (17 * 10 ^ (307 : Nat))
    let transform := Expr.fresh .round [.port "p", .literal 2]
    let mean := Decimals.roundByMagnitude (Number.sum [x] / 1)
    let value := ((ofWidth .average 1).push x false (some transform)).1
    value = some x ∧ value ≠ some (Decimals.roundTo mean 2) ∧
      value ≠ (Func.round.run [mean, 2] .none Now.start).1 := by
  decide +kernel

end Filter

end PortLogic
