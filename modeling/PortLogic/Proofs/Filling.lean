import Mathlib.Data.List.Infix
import PortLogic.Device.Simulated
import PortLogic.Number.Power
import PortLogic.Proofs.History

/-!
# PortLogic.Proofs.Filling — no value comes from a partial window

An active filter yields nothing until its window is full, but a window is emptied in several ways,
and not all of them take the value of the port. A port is *bare* when its window is empty and it
has no value, as after its filter was replaced or after it was disabled. From then on the window
holds no more samples than were pushed, and the port has a value only when at least as many were
pushed as its filter is wide (`Port.Fed`). Ticks keep this because they feed a filter at most one
sample, the other operations because they bring no value to an input (`Port.Unfed`). So an input
whose filter is still filling has no value (`Reachable.no_partial_window`).
-/

namespace PortLogic

open Table

/-! ## Filters -/

namespace Filter

theorem slide_length (f : Filter) (sample : Number) :
    (f.slide sample).length = min f.width (f.window.length + 1) := by
  unfold slide
  simp only [List.length_drop, List.length_append, List.length_singleton]
  omega

variable [Power]

/-- A push adds at most one sample. -/
theorem push_length_le (f : Filter) (sample : Number) (boolean : Bool) (transform : Option Expr) :
    (f.push sample boolean transform).2.window.length ≤ f.window.length + 1 := by
  unfold push
  split
  · show (f.slide sample).length ≤ _
    rw [slide_length]
    exact Nat.min_le_right _ _
  · exact Nat.le_succ _

/-- An active filter that yields a value has a full window. -/
theorem width_le_of_push {f : Filter} {sample : Number} {boolean : Bool} {transform : Option Expr}
    (hactive : f.isActive = true) (h : (f.push sample boolean transform).1 ≠ none) :
    f.width ≤ (f.push sample boolean transform).2.window.length := by
  unfold push at h ⊢
  rw [if_pos hactive] at h ⊢
  by_contra hshort
  exact h (if_pos (Nat.lt_of_not_le hshort))

omit [Power] in
theorem Continues.isActive {f g : Filter} (h : f.Continues g) : g.isActive = f.isActive := by
  unfold Filter.isActive
  rw [h.kind]

end Filter

/-! ## Ports -/

namespace Port

variable {δ : Type} {p q : Port δ} {count : Nat}

/-- The transformed sample that a tick pushes into the filter of the port. -/
def offered [Power] [Driver δ] (p : Port δ) (now : Now) : Value :=
  if p.isDue now then
    (p.driver.bind fun driver => (Driver.read driver now).1.bind Number.finite?).bind fun raw =>
      (p.incoming raw now).1
  else none

/-- Whether the window is empty and there is no value. -/
def isBare (p : Port δ) : Bool :=
  p.filter.window.isEmpty && p.value.isNone

/-- So many samples account for the window, and for the value under an active filter. -/
structure Fed (count : Nat) (p : Port δ) : Prop where
  window : p.filter.window.length ≤ count
  value : p.filter.isActive = true → p.value ≠ none → p.filter.width ≤ count

theorem isBare_iff : p.isBare = true ↔ p.filter.window = [] ∧ p.value = none := by
  unfold isBare
  rw [Bool.and_eq_true, List.isEmpty_iff, Option.isNone_iff_eq_none]

theorem fed_of_isBare (h : p.isBare = true) : p.Fed 0 := by
  rcases isBare_iff.mp h with ⟨hwindow, hvalue⟩
  constructor
  · rw [hwindow]
    exact Nat.le_refl 0
  · intro _ hsome
    exact absurd hvalue hsome

/-- The samples are an account of another port that has the same filter and value. -/
theorem Fed.congr (h : p.Fed count) (hfilter : q.filter = p.filter) (hvalue : q.value = p.value) :
    q.Fed count := by
  constructor
  · rw [hfilter]
    exact h.window
  · rw [hfilter, hvalue]
    exact h.value

/-- What becomes of a port while nothing is sampled: an input keeps its value or loses it, and the
filter stays or is emptied, or it is replaced by an empty one that takes the value. -/
structure Unfed (p q : Port δ) : Prop where
  output : q.output = p.output
  value : p.output = false → q.value = p.value ∨ q.value = none
  filter : q.filter = p.filter ∨ q.filter = p.filter.reset ∨ q.isBare = true

/-- A port with the same filter and value. -/
theorem unfed_of_eq (houtput : q.output = p.output) (hvalue : q.value = p.value)
    (hfilter : q.filter = p.filter) : p.Unfed q :=
  ⟨houtput, fun _ => Or.inl hvalue, Or.inl hfilter⟩

theorem Unfed.refl (p : Port δ) : p.Unfed p :=
  unfed_of_eq rfl rfl rfl

/-- Nothing needs to be pushed for what happens while nothing is sampled. -/
theorem Unfed.fed (h : p.Unfed q) (hinput : p.output = false) (hp : p.Fed count) :
    q.Fed count := by
  -- a value afterwards was there before
  have hkept : q.value ≠ none → p.value ≠ none := by
    intro hq
    rcases h.value hinput with heq | hnone
    · rwa [heq] at hq
    · exact absurd hnone hq
  rcases h.filter with hsame | hreset | hbare
  · refine ⟨hsame ▸ hp.window, ?_⟩
    rw [hsame]
    exact fun hactive hq => hp.value hactive (hkept hq)
  · refine ⟨?_, ?_⟩
    · rw [hreset]
      exact Nat.zero_le count
    · rw [hreset]
      exact fun hactive hq => hp.value hactive (hkept hq)
  · have hzero := fed_of_isBare hbare
    exact ⟨hzero.window.trans (Nat.zero_le _),
      fun hactive hq => (hzero.value hactive hq).trans (Nat.zero_le _)⟩

variable [Driver δ] {now : Now}

/-- The port keeps its filter and its value. -/
def Holds (p q : Port δ) : Prop :=
  q.filter = p.filter ∧ q.value = p.value

/-- A sample is pushed into the filter of the port, and the value stays unless the filter yields
one. -/
def Takes [Power] (x : Number) (p q : Port δ) : Prop :=
  ∃ boolean transform, q.filter = (p.filter.push x boolean transform).2 ∧
    ((p.filter.push x boolean transform).1 = none → q.value = p.value)

omit [Driver δ] in
/-- What the transform yields is pushed. -/
theorem takeSample_pushes [Power] (p : Port δ) (raw : Number) (now : Now) :
    ((p.incoming raw now).1 = none ∧ p.Holds (p.takeSample raw now).port) ∨
      ∃ x, (p.incoming raw now).1 = some x ∧ Takes x p (p.takeSample raw now).port := by
  unfold takeSample
  rcases p.incoming raw now with ⟨_ | x, transform⟩
  · exact Or.inl ⟨rfl, rfl, rfl⟩
  refine Or.inr ⟨x, rfl, p.kind = .boolean, transform, ?_⟩
  simp only
  split
  · exact ⟨rfl, fun _ => rfl⟩
  · next y hy =>
    rcases Option.bind_eq_some_iff.mp hy with ⟨filtered, hyields, -⟩
    unfold acceptSample
    refine ⟨by split <;> rfl, ?_⟩
    intro hnone
    cases hyields.symm.trans hnone

/-- A tick pushes what it is offered, and leaves the port alone when that is nothing. -/
theorem sample_pushes [Power] (p : Port δ) (now : Now) :
    (p.offered now = none ∧ p.Holds (p.sample now).port) ∨
      ∃ x, p.offered now = some x ∧ Takes x p (p.sample now).port := by
  unfold offered sample
  split
  · simp only
    split
    · next hdriver => exact Or.inl ⟨by rw [hdriver]; rfl, rfl, rfl⟩
    next driver hdriver =>
    rw [hdriver, Option.bind_some]
    split
    · next hraw => exact Or.inl ⟨by rw [hraw]; rfl, rfl, rfl⟩
    · next raw hraw =>
      rw [hraw, Option.bind_some]
      exact takeSample_pushes
        { p with sampledAt := some now.uptime, driver := some (Driver.read driver now).2 } raw now
  · exact Or.inl ⟨rfl, rfl, rfl⟩

omit [Driver δ] in
/-- With one more sample pushed there is an account of one more sample. -/
theorem Takes.fed [Power] {x : Number} (h : Takes x p q) (hp : p.Fed count) : q.Fed
    (count + 1) := by
  rcases h with ⟨boolean, transform, hfilter, hvalue⟩
  have hcontinues := p.filter.push_continues x boolean transform
  have hlength := p.filter.push_length_le x boolean transform
  have hwindow := hp.window
  constructor
  · rw [hfilter]
    omega
  · rw [hfilter, hcontinues.isActive, hcontinues.width]
    intro hactive hsome
    by_cases hyields : (p.filter.push x boolean transform).1 = none
    · -- the value is the one of before
      rw [hvalue hyields] at hsome
      exact Nat.le_succ_of_le (hp.value hactive hsome)
    · have hfull := Filter.width_le_of_push hactive hyields
      omega

/-- The samples that account for a port after a tick. -/
theorem sample_fed [Power] (now : Now) (hp : p.Fed count) :
    (p.sample now).port.acknowledge.Fed
      (if (p.offered now).isSome then count + 1 else count) := by
  have hsampled : (p.sample now).port.Fed
      (if (p.offered now).isSome then count + 1 else count) := by
    rcases p.sample_pushes now with ⟨hnone, hfilter, hvalue⟩ | ⟨x, hsome, htakes⟩
    · rw [hnone]
      exact hp.congr hfilter hvalue
    · rw [hsome]
      exact htakes.fed hp
  rcases (p.sample now).port.acknowledge_eq with ⟨reason, detected, heq⟩
  rw [heq]
  exact hsampled.congr rfl rfl

end Port

/-! ## Operations other than ticks -/

namespace Table

variable {δ : Type} {t u : Table δ} {slot : Nat} {p q : Port δ} {id : String}

/-- Every port was there before, and nothing was sampled since. -/
def Unfed (t u : Table δ) : Prop :=
  ∀ ⦃slot q⦄, u.get? slot = some q → ∃ p, t.get? slot = some p ∧ p.Unfed q

theorem Unfed.refl (t : Table δ) : t.Unfed t := by
  intro slot p hget
  exact ⟨p, hget, Port.Unfed.refl p⟩

theorem Unfed.map {f : Port δ → Port δ} (h : t.Unfed u) (hf : ∀ p : Port δ,
    (f p).output = p.output ∧ (f p).value = p.value ∧ (f p).filter = p.filter) :
    t.Unfed (u.map f) := by
  intro slot q hget
  rw [get?_map] at hget
  rcases Option.map_eq_some_iff.mp hget with ⟨r, hr, rfl⟩
  rcases h hr with ⟨p, hp, hunfed⟩
  rcases hf r with ⟨houtput, hvalue, hfilter⟩
  refine ⟨p, hp, houtput.trans hunfed.output, hvalue ▸ hunfed.value, ?_⟩
  unfold Port.isBare
  rw [hfilter, hvalue]
  exact hunfed.filter

theorem Unfed.modify {f : Port δ → Port δ} (hf : ∀ p, t.get? slot = some p → p.Unfed (f p)) :
    t.Unfed (t.modify slot f) := by
  intro other q hget
  rw [get?_modify] at hget
  split at hget
  · next heq =>
    subst heq
    rcases Option.map_eq_some_iff.mp hget with ⟨p, hp, rfl⟩
    exact ⟨p, hp, hf p hp⟩
  · exact ⟨q, hget, Port.Unfed.refl q⟩

theorem Unfed.refreshTriggers (h : t.Unfed u) : t.Unfed u.refreshTriggers :=
  h.map fun _ => ⟨rfl, rfl, rfl⟩

/-- A port that is not the one in the slot that is replaced. -/
theorem Replaces.unfed {entry : Option (Port δ)} (ht : t.Distinct) (h : t.Replaces slot entry u)
    (hp : t.find? id = some p) (hentry : ∀ r, entry = some r → r.id ≠ id)
    (hq : u.find? id = some q) : p.Unfed q := by
  rcases find?_eq_some hq with ⟨other, -, hget, hid⟩
  by_cases hother : slot = other
  · subst hother
    rcases h.get?_self hget with ⟨r, _, hr, rfl⟩
    exact absurd hid (hentry r hr)
  · rcases h.get?_of_ne hother hget with ⟨r, _, hr, rfl⟩
    have hfound : t.find? id = some r := hid ▸ ht.find? hr
    rw [Option.some.inj (hp.symm.trans hfound)]
    exact Port.unfed_of_eq rfl rfl rfl

end Table

namespace Engine

section

variable {δ : Type} {e : Engine δ} {slot : Nat} {p q : Port δ} {id : String} {count : Nat}

theorem modify_unfed (hentry : e.entry? id = some (slot, p)) (h : p.Unfed q) :
    e.table.Unfed (e.table.modify slot fun _ => q) := by
  rcases entry?_eq_some hentry with ⟨-, hget, -⟩
  refine Table.Unfed.modify fun r hr => ?_
  rwa [← Option.some.inj (hget.symm.trans hr)]

theorem setExpression_unfed (e : Engine δ) (id source : String) :
    e.table.Unfed (e.setExpression id source).2.table := by
  rcases setExpression_cases e id source with ⟨err, h⟩ | ⟨slot, p, expr?, hentry, -, -, h⟩
  · rw [h]
    exact Table.Unfed.refl _
  · rw [h]
    exact Table.Unfed.refreshTriggers (modify_unfed hentry (Port.unfed_of_eq rfl rfl rfl))

theorem setTransform_unfed {set : Port δ → Option Expr → Port δ}
    (hset : ∀ (p : Port δ) transform, p.Unfed (set p transform)) (e : Engine δ)
    (id source : String) : e.table.Unfed (setTransform set e id source).2.table := by
  rcases setTransform_cases set e id source with ⟨err, h⟩ | ⟨slot, p, transform, hentry, -, h⟩
  · rw [h]
    exact Table.Unfed.refl _
  · rw [h]
    rcases hset p transform with ⟨houtput, hvalue, hfilter⟩
    exact modify_unfed hentry ⟨houtput, hvalue, hfilter⟩

/-- Setting a filter empties it and may take the value. -/
theorem setFilter_unfed (e : Engine δ) (id : String) (kind : FilterKind) (width : Nat) :
    e.table.Unfed (e.setFilter id kind width).2.table := by
  rcases setFilter_modify e id kind width with
    ⟨err, h⟩ | ⟨slot, p, q, hentry, -, h, ⟨-, rfl⟩ | ⟨-, _, _, rfl⟩⟩
  · rw [h]
    exact Table.Unfed.refl _
  · rw [h]
    exact modify_unfed hentry ⟨rfl, fun _ => Or.inl rfl, Or.inr (Or.inl rfl)⟩
  · rw [h]
    exact modify_unfed hentry ⟨rfl, fun _ => Or.inr rfl, Or.inr (Or.inr rfl)⟩

theorem enable_unfed (e : Engine δ) (id : String) : e.table.Unfed (e.enable id).2.table := by
  rcases enable_cases e id with ⟨err, h⟩ | ⟨slot, p, hentry, ⟨-, h⟩ | ⟨-, live, -, h⟩⟩
  · rw [h]
    exact Table.Unfed.refl _
  · rw [h]
    exact Table.Unfed.refl _
  · rw [h]
    exact Table.Unfed.refreshTriggers (modify_unfed hentry (Port.unfed_of_eq rfl rfl rfl))

/-- Disabling a port empties its filter and takes its value. -/
theorem disable_unfed (e : Engine δ) (id : String) : e.table.Unfed (e.disable id).2.table := by
  rcases disable_cases e id with ⟨err, h⟩ | ⟨slot, p, hentry, ⟨-, h⟩ | ⟨-, h⟩⟩
  · rw [h]
    exact Table.Unfed.refl _
  · rw [h]
    exact Table.Unfed.refl _
  · rw [h]
    exact modify_unfed hentry ⟨rfl, fun _ => Or.inr rfl, Or.inr (Or.inl rfl)⟩

theorem touch_unfed (e : Engine δ) (id : String) : e.table.Unfed (e.touch id).2.table := by
  rcases touch_cases e id with ⟨err, h⟩ | ⟨slot, -, h⟩
  · rw [h]
    exact Table.Unfed.refl _
  · rw [h]
    exact Table.Unfed.refl _

theorem takeDirtyConfigs_unfed (e : Engine δ) (now : Now) (force : Bool) :
    e.table.Unfed (e.takeDirtyConfigs now force).2.table := by
  unfold takeDirtyConfigs
  split
  · exact Table.Unfed.refl _
  · exact (Table.Unfed.refl _).map fun _ => ⟨rfl, rfl, rfl⟩

theorem adjustDriver_unfed (e : Engine δ) (id : String) (f : δ → δ) :
    e.table.Unfed (e.adjustDriver id f).table := by
  unfold adjustDriver
  split
  · exact Table.Unfed.refl _
  · exact Table.Unfed.modify fun _ _ => Port.unfed_of_eq rfl rfl rfl

variable [Driver δ] [Power]

/-- A value is written to outputs only. -/
theorem setValue_unfed (e : Engine δ) (id : String) (x : Number) :
    e.table.Unfed (e.setValue id x).2.table := by
  rcases setValue_cases e id x with ⟨err, h⟩ | ⟨slot, p, y, hentry, houtput, -, -, h⟩
  · rw [h]
    exact Table.Unfed.refl _
  rcases commit_cases e slot p y .native with
    ⟨writeTransform, driver, -, ⟨err, -, hcommit⟩ | ⟨-, hcommit⟩⟩
  · rw [h, hcommit]
    exact modify_unfed hentry (Port.unfed_of_eq rfl rfl rfl)
  · rw [h, hcommit]
    refine modify_unfed hentry ⟨rfl, ?_, Or.inl rfl⟩
    intro hinput
    cases houtput.symm.trans hinput

/-- Whether an operation is a tick. -/
def Operation.isTick : Operation δ → Bool
  | .tick _ => true
  | _ => false

theorem perform_keeps_unfed (e : Engine δ) {operation : Operation δ} (h : operation.KeepsPorts)
    (htick : operation.isTick = false) : e.table.Unfed (e.perform operation).2.table := by
  cases operation with
  | addPort config driver => exact h.elim
  | unregister id => exact h.elim
  | setValue id x => exact setValue_unfed e id x
  | setExpression id source => exact setExpression_unfed e id source
  | setReadTransform id source =>
    have hset (p : Port δ) (transform : Option Expr) :
        p.Unfed { p with readTransform := transform } := Port.unfed_of_eq rfl rfl rfl
    exact setTransform_unfed hset e id source
  | setWriteTransform id source =>
    have hset (p : Port δ) (transform : Option Expr) :
        p.Unfed { p with writeTransform := transform } := Port.unfed_of_eq rfl rfl rfl
    exact setTransform_unfed hset e id source
  | setFilter id kind width => exact setFilter_unfed e id kind width
  | enable id => exact enable_unfed e id
  | disable id => exact disable_unfed e id
  | touch id => exact touch_unfed e id
  | tick now => cases htick
  | takeNotifications => exact Table.Unfed.refl _
  | takeDirtyConfigs now force => exact takeDirtyConfigs_unfed e now force
  | adjustDriver id f => exact adjustDriver_unfed e id f

/-- A port that has its identifier before and after an operation other than a tick. -/
theorem perform_unfed (hwired : e.table.Wired) {operation : Operation δ}
    (htick : operation.isTick = false) (hp : e.table.find? id = some p)
    (hq : (e.perform operation).2.table.find? id = some q) : p.Unfed q := by
  have hkeeps (h : operation.KeepsPorts) : p.Unfed q := by
    rcases find?_eq_some hq with ⟨slot, hslot, hget, -⟩
    rcases perform_keeps_unfed e h htick hget with ⟨r, hr, hunfed⟩
    have hfound : e.table.find? id = some r := by
      rw [find?, ← h.slotOf? e, hslot, Option.bind_some, hr]
    rwa [Option.some.inj (hp.symm.trans hfound)]
  cases operation with
  | addPort config driver =>
    change (e.addPort config driver).2.table.find? id = some q at hq
    rcases addPort_cases e config driver with ⟨err, hadd⟩ | ⟨slot, -, hnew, hfree, hadd⟩
    · rw [hadd] at hq
      rw [Option.some.inj (hp.symm.trans hq)]
      exact Port.Unfed.refl q
    · rw [hadd] at hq
      have hplace := (freeSlot?_eq_some hfree hwired.small).1
      refine (insert_replaces (e.portOf config driver) hplace).unfed hwired.distinct hp ?_ hq
      intro r hr hid
      -- the identifier was not there, while the port was
      rw [← Option.some.inj hr, portOf_id] at hid
      rw [hid, hp] at hnew
      cases hnew
  | unregister name =>
    change (e.unregister name).2.table.find? id = some q at hq
    rcases unregister_cases e name with ⟨err, hun⟩ | ⟨slot, r, -, -, hun⟩
    · rw [hun] at hq
      rw [Option.some.inj (hp.symm.trans hq)]
      exact Port.Unfed.refl q
    · rw [hun] at hq
      refine (free_replaces e.table slot).unfed hwired.distinct hp ?_ hq
      intro r hr
      cases hr
  | _ => exact hkeeps trivial

/-! ## Runs -/

/-- A tick leaves in the place of an input what its sampling made of it. -/
theorem tick_find?_of_input (hp : e.table.find? id = some p) (hinput : p.output = false)
    (now : Now) :
    (e.tick now).2.table.find? id = some (p.sample now).port.acknowledge := by
  rcases find?_eq_some hp with ⟨slot, hslot, hget, -⟩
  have hkind : (p.sample now).port.acknowledge.output = false :=
    (congrArg Port.Wiring.output ((Port.acknowledge_wiring _).trans (p.sample_wiring now))).trans
      hinput
  rw [find?, (tick_sameWiring e now).slotOf?, hslot, Option.bind_some]
  rcases tick_get?_cases (ready_get?_of_some hget now) with ⟨-, hafter⟩ | ⟨expr, hfires, -⟩
  · exact hafter
  · cases hfires.output.symm.trans hkind

/-- Whether an operation pushes a sample into the filter of a port. -/
def feeds (e : Engine δ) (id : String) : Operation δ → Bool
  | .tick now => (e.table.find? id).any fun p => (p.offered now).isSome
  | _ => false

/-- The samples after an operation, counted from the last time that the port was bare. -/
def nextFed (e : Engine δ) (id : String) (count : Nat) (operation : Operation δ) : Nat :=
  if ((e.perform operation).2.table.find? id).any Port.isBare then 0
  else if e.feeds id operation then count + 1 else count

/-- The samples that a run pushes into the filter of a port after it was bare for the last time, or
that it adds to those of before. -/
def fed (e : Engine δ) (id : String) (count : Nat) : List (Operation δ) → Nat
  | [] => count
  | operation :: rest => (e.perform operation).2.fed id (e.nextFed id count operation) rest

/-- An operation keeps account of the samples of an input. -/
theorem perform_fed (hwired : e.table.Wired) (operation : Operation δ)
    (hp : e.table.find? id = some p) (hinput : p.output = false) (hfed : p.Fed count)
    (hq : (e.perform operation).2.table.find? id = some q) :
    q.output = false ∧ q.Fed (e.nextFed id count operation) := by
  have hafter : q.output = false ∧
      q.Fed (if e.feeds id operation then count + 1 else count) := by
    cases htick : operation.isTick with
    | true =>
      cases operation with
      | tick now =>
        have hfound := tick_find?_of_input hp hinput now
        obtain rfl := Option.some.inj (hfound.symm.trans hq)
        have hkind := congrArg Port.Wiring.output
          ((Port.acknowledge_wiring _).trans (p.sample_wiring now))
        refine ⟨hkind.trans hinput, ?_⟩
        unfold feeds
        rw [hp]
        exact Port.sample_fed now hfed
      | _ => cases htick
    | false =>
      have hunfed := perform_unfed hwired htick hp hq
      refine ⟨hunfed.output.trans hinput, ?_⟩
      have hfeeds : e.feeds id operation = false := by
        cases operation with
        | tick now => cases htick
        | _ => rfl
      rw [hfeeds]
      exact hunfed.fed hinput hfed
  refine ⟨hafter.1, ?_⟩
  unfold nextFed
  rw [hq]
  split
  · next hbare => exact Port.fed_of_isBare hbare
  · exact hafter.2

/-- A run keeps account of the samples of an input that stays. -/
theorem run_fed (hwired : e.table.Wired) {operations : List (Operation δ)}
    (hp : e.table.find? id = some p) (hinput : p.output = false) (hfed : p.Fed count)
    (hstays : ∀ done, done <+: operations → ((e.run done).table.find? id).isSome)
    (hq : (e.run operations).table.find? id = some q) : q.Fed (e.fed id count operations) := by
  induction operations generalizing e p count with
  | nil =>
    obtain rfl := Option.some.inj (hp.symm.trans hq)
    exact hfed
  | cons operation rest ih =>
    have hnext := hstays [operation] ⟨rest, rfl⟩
    rcases Option.isSome_iff_exists.mp hnext with ⟨r, hr⟩
    rcases perform_fed hwired operation hp hinput hfed hr with ⟨hkind, haccount⟩
    refine ih (perform_wired hwired operation) hr hkind haccount ?_ hq
    intro done hdone
    exact hstays (operation :: done) (List.cons_prefix_cons.mpr ⟨rfl, hdone⟩)

/-- What makes a port begin a window without a value: a filter of another kind or width is set, or
the port is disabled. -/
def Renews (e : Engine δ) (id : String) : Operation δ → Prop
  | .setFilter name kind width =>
    name = id ∧ (e.setFilter name kind width).1 = .ok () ∧
      ∀ p, e.table.find? id = some p → ¬(p.filter.kind = kind ∧ p.filter.width = width)
  | .disable name => name = id ∧ ∃ p, e.table.find? id = some p ∧ p.enabled = true
  | _ => False

omit [Driver δ] in
omit [Power] in
/-- A port that was replaced is found in its new form. -/
theorem find?_modify_self (hentry : e.entry? id = some (slot, p)) (hid : q.id = p.id) :
    (e.table.modify slot fun _ => q).find? id = some q := by
  rcases entry?_eq_some hentry with ⟨hslot, -, -⟩
  rw [find?, modify_slotOf? hentry hid, hslot, Option.bind_some, modify_get? q hentry, if_pos rfl]

/-- A port that begins a window is bare. -/
theorem Renews.bare {event : Operation δ} (h : e.Renews id event)
    (hp : e.table.find? id = some p) :
    ∃ q, (e.perform event).2.table.find? id = some q ∧ q.output = p.output ∧ q.isBare = true := by
  cases event with
  | setFilter name kind width =>
    rcases h with ⟨rfl, hok, hother⟩
    show ∃ q, (e.setFilter name kind width).2.table.find? name = some q ∧ _
    rcases setFilter_modify e name kind width with
      ⟨err, hset⟩ | ⟨slot, r, q, hentry, -, hset, ⟨hsame, -⟩ | ⟨-, lastRead, reason, rfl⟩⟩
    · rw [hset] at hok
      cases hok
    · have hfound := find?_of_entry? hentry
      exact absurd hsame (hother r hfound)
    · have hfound := find?_of_entry? hentry
      obtain rfl := Option.some.inj (hp.symm.trans hfound)
      rw [hset]
      exact ⟨_, find?_modify_self hentry rfl, rfl, rfl⟩
  | disable name =>
    rcases h with ⟨rfl, r, hr, henabled⟩
    show ∃ q, (e.disable name).2.table.find? name = some q ∧ _
    obtain rfl := Option.some.inj (hp.symm.trans hr)
    rcases exists_entry? hp with ⟨place, hplace⟩
    rcases disable_cases e name with
      ⟨err, hdis⟩ | ⟨slot, r, hentry, ⟨hdisabled, -⟩ | ⟨-, hdis⟩⟩
    · -- a port that is there is not rejected
      unfold disable at hdis
      rw [hplace] at hdis
      simp only [henabled] at hdis
      cases hdis
    · have hfound := find?_of_entry? hentry
      obtain rfl := Option.some.inj (hp.symm.trans hfound)
      cases henabled.symm.trans hdisabled
    · have hfound := find?_of_entry? hentry
      obtain rfl := Option.some.inj (hp.symm.trans hfound)
      rw [hdis]
      exact ⟨_, find?_modify_self hentry rfl, rfl, rfl⟩
  | _ => exact h.elim

/-- After a filter of another kind or width is set, or an enabled input is disabled, the input has
no value under an active filter until the filter has taken as many samples as it is wide, whatever
else happens while the port stays. -/
theorem Reachable.no_partial_window (h : e.Reachable) (hp : e.table.find? id = some p)
    (hinput : p.output = false) {event : Operation δ} (hrenews : e.Renews id event)
    {operations : List (Operation δ)}
    (hstays : ∀ done, done <+: operations →
      (((e.perform event).2.run done).table.find? id).isSome)
    (hq : ((e.perform event).2.run operations).table.find? id = some q)
    (hactive : q.filter.isActive = true)
    (hfilling : (e.perform event).2.fed id 0 operations < q.filter.width) :
    ((e.perform event).2.run operations).value id = .ok none := by
  rcases hrenews.bare hp with ⟨r, hr, hkind, hbare⟩
  have hfed := run_fed (perform_wired h.wired event) hr (hkind.trans hinput)
    (Port.fed_of_isBare hbare) hstays hq
  have hnone : q.value = none := by
    by_contra hsome
    exact absurd (hfed.value hactive hsome) (Nat.not_le_of_lt hfilling)
  unfold value
  rw [hq]
  exact congrArg Except.ok hnone

end

attribute [local instance] Power.rounded

/-- A majority of three samples: one sample after the filter was set is not enough, and neither are
two after the port was disabled and enabled again. -/
theorem no_partial_window_of_majority :
    let e := (start EngineConfig.initial : Engine Simulated).run [
      .addPort { PortConfig.input "a" .boolean with samplingInterval := 0 }
        (some (.script [some 1, none, some 1, some 1, some 0, some 1])),
      .tick ⟨0, none⟩]
    let set : Operation Simulated := .setFilter "a" .median 3
    let operations : List (Operation Simulated) := [.tick ⟨1, none⟩, .tick ⟨2, none⟩,
      .disable "a", .enable "a", .tick ⟨3, none⟩, .tick ⟨4, none⟩]
    e.value "a" = .ok (some 1) ∧ (e.perform set).2.fed "a" 0 operations = 2 ∧
      ((e.perform set).2.run operations).value "a" = .ok none ∧
      ((e.perform set).2.run (operations ++ [.tick ⟨5, none⟩])).value "a" = .ok (some 1) := by
  intro e set operations
  have hreachable : e.Reachable := (reachable_start _).run _
  have hfound : (e.table.find? "a").isSome = true := by decide +kernel
  rcases Option.isSome_iff_exists.mp hfound with ⟨p, hp⟩
  have hplain : (e.table.find? "a").map (fun p => (p.output, p.filter)) =
      some (false, Filter.ofWidth .none 1) := by decide +kernel
  rw [hp] at hplain
  rcases Prod.mk.inj (Option.some.inj hplain) with ⟨hinput, hfilter⟩
  have hrenews : e.Renews "a" set := by
    refine ⟨rfl, by decide +kernel, ?_⟩
    intro r hr
    rw [← Option.some.inj (hp.symm.trans hr), hfilter]
    decide
  have hstays : ∀ done, done <+: operations →
      (((e.perform set).2.run done).table.find? "a").isSome := by
    intro done hdone
    have hall : ∀ done ∈ operations.inits,
        (((e.perform set).2.run done).table.find? "a").isSome := by
      decide +kernel
    exact hall done ((List.mem_inits done operations).mpr hdone)
  rcases Option.isSome_iff_exists.mp (hstays operations (List.prefix_refl _)) with ⟨q, hq⟩
  have hpartial : (((e.perform set).2.run operations).table.find? "a").map Port.filter =
      some ⟨.median, 3, [1, 0]⟩ := by decide +kernel
  rw [hq] at hpartial
  have hwindow : q.filter = ⟨.median, 3, [1, 0]⟩ := Option.some.inj hpartial
  have hfed : (e.perform set).2.fed "a" 0 operations = 2 := by decide +kernel
  refine ⟨by decide +kernel, hfed, ?_, by decide +kernel⟩
  refine Reachable.no_partial_window hreachable hp hinput hrenews hstays hq ?_ ?_
  · rw [hwindow]
    rfl
  · rw [hwindow, hfed]
    decide

end Engine

end PortLogic
