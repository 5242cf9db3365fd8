import PortLogic.Proofs.Moves

/-!
# PortLogic.Proofs.Values — only values that fit

Numbers enter a port through its fitting alone, whatever was stored, sampled or written: the value,
what references read and what was detected fit the port, and so they are finite
(`Reachable.fitting`). A disabled port has no value.
-/

namespace PortLogic

namespace Port

variable {δ : Type} {p q : Port δ}

/-- Fitting a number once is enough. -/
theorem fit_idem {kind : PortKind} {low high : Option Number} {x y : Number}
    (h : fit kind low high x = some y) : fit kind low high y = some y := by
  have hfinite (b : Bool) : (Number.ofBool b).isFinite = true := by
    cases b <;> decide +kernel
  have htrue (b : Bool) : (Number.ofBool b).isTrue = b := by
    cases b <;> decide +kernel
  cases kind with
  | boolean =>
    unfold fit at h ⊢
    split at h
    · cases h
    · obtain rfl := Option.some.inj h
      simp only
      rw [hfinite, htrue, Bool.not_true, if_neg Bool.false_ne_true]
  | number =>
    -- a number that fits is taken as it is
    have hsame : x = y := by
      unfold fit at h
      simp only at h
      split at h
      · cases h
      split at h
      · cases h
      · exact Option.some.inj h
    rwa [hsame] at h

/-- A value of the port: undefined, or a number that fits as it is. -/
def Admits (p : Port δ) (v : Value) : Prop :=
  ∀ x, v = some x → p.normalize x = some x

theorem admits_none (p : Port δ) : p.Admits none := by
  intro x h
  cases h

theorem admits_of_normalize {x y : Number} (h : p.normalize x = some y) : p.Admits (some y) := by
  intro z hz
  rw [← Option.some.inj hz]
  exact fit_idem h

/-- Every value that the port remembers is one of the port, and it has none while disabled. -/
structure Fitting (p : Port δ) : Prop where
  value : p.Admits p.value
  lastRead : p.Admits p.lastRead
  detected : p.Admits p.detected
  idle : p.enabled = false → p.value = none ∧ p.lastRead = none

/-- A move lets in nothing but values that fit. -/
theorem Move.fitting (h : p.Move q) (hp : p.Fitting) : q.Fitting := by
  cases h with
  | advance hread hwrite hlive hfilter => exact ⟨hp.value, hp.lastRead, hp.detected, hp.idle⟩
  | accept reason henabled hfit =>
    have hadmits := admits_of_normalize hfit
    refine ⟨hadmits, hadmits, hp.detected, ?_⟩
    intro hdisabled
    cases henabled.symm.trans hdisabled
  | confirm henabled hfit hsame =>
    refine ⟨hp.value, admits_of_normalize hfit, hp.detected, ?_⟩
    intro hdisabled
    cases henabled.symm.trans hdisabled
  | acknowledge =>
    unfold Port.acknowledge
    split
    · exact ⟨hp.value, hp.lastRead, hp.value, hp.idle⟩
    · exact hp
  | assign source live => exact ⟨hp.value, hp.lastRead, hp.detected, hp.idle⟩
  | readTransform h => exact ⟨hp.value, hp.lastRead, hp.detected, hp.idle⟩
  | writeTransform h => exact ⟨hp.value, hp.lastRead, hp.detected, hp.idle⟩
  | refilter kind width => exact ⟨hp.value, hp.lastRead, hp.detected, hp.idle⟩
  | forget hdirty => exact ⟨p.admits_none, p.admits_none, hp.detected, fun _ => ⟨rfl, rfl⟩⟩
  | enable live hdisabled =>
    refine ⟨hp.value, hp.lastRead, hp.detected, ?_⟩
    intro h
    cases h
  | disable henabled => exact ⟨p.admits_none, p.admits_none, hp.detected, fun _ => ⟨rfl, rfl⟩⟩

theorem Moves.fitting (h : p.Moves q) (hp : p.Fitting) : q.Fitting :=
  h.keep Move.fitting hp

end Port

namespace Engine

variable {δ : Type} [Driver δ] {e : Engine δ}

omit [Driver δ] in
/-- A stored value comes back as far as it fits. -/
theorem portOf_fitting (e : Engine δ) (config : PortConfig) (driver : Option δ) :
    (e.portOf config driver).Fitting := by
  rcases portOf_cases e config driver with ⟨expression, live, hport, -⟩
  rw [hport]
  have hvalue : (Port.ofConfig config driver).Admits (Port.ofConfig config driver).value := by
    intro x hx
    unfold Port.ofConfig at hx
    simp only at hx
    split at hx
    · rcases Option.bind_eq_some_iff.mp hx with ⟨y, -, hfit⟩
      exact Port.fit_idem hfit
    · cases hx
  refine ⟨hvalue, hvalue, Port.admits_none _, ?_⟩
  intro hdisabled
  have hnone : (Port.ofConfig config driver).value = none := by
    unfold Port.ofConfig
    simp only
    rw [if_neg]
    rintro ⟨henabled, -⟩
    cases henabled.symm.trans hdisabled
  exact ⟨hnone, hnone⟩

variable [Power]

/-- In a reachable engine every port has values that fit, and a disabled one has none. -/
theorem Reachable.fitting (h : e.Reachable) {slot : Nat} {p : Port δ}
    (hget : e.table.get? slot = some p) : p.Fitting := by
  refine h.port_induction ?_ Port.Move.fitting ?_ hget
  · intro e config driver _
    exact portOf_fitting e config driver
  · intro p hp
    exact ⟨hp.value, hp.lastRead, hp.detected, hp.idle⟩

end Engine

end PortLogic
