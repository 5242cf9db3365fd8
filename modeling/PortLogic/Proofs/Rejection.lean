import PortLogic.Device.Simulated
import PortLogic.Number.Power
import PortLogic.Proofs.Edit

/-!
# PortLogic.Proofs.Rejection — edits that are rejected

Registering, removing and editing a port, enabling, disabling and touching it can all be rejected,
each for several reasons. Every check of an edit comes before its first change, so a rejected edit
leaves the whole engine as it was (`perform_rejected`): the ports with their trees, memories and
filter windows, what is forced, and the notifications that wait. A run therefore leads to the same
engine without the edits that it rejects (`run_accepted`). Writing a value is no edit in this sense.
-/

namespace PortLogic

namespace Engine

section

variable {δ : Type}

/-- Whether an operation registers, removes or edits a port. -/
def Operation.isEdit : Operation δ → Bool
  | .addPort _ _ | .unregister _ | .setExpression _ _ | .setReadTransform _ _
  | .setWriteTransform _ _ | .setFilter _ _ _ | .enable _ | .disable _ | .touch _ => true
  | .setValue _ _ | .tick _ | .takeNotifications | .takeDirtyConfigs _ _
  | .adjustDriver _ _ => false

/-- What an edit may come to: it is rejected and nothing has changed, or it is accepted. -/
def AllOrNothing (e : Engine δ) (edited : Edited δ) : Prop :=
  (∃ err, edited = (.error err, e)) ∨ edited.1 = .ok ()

theorem AllOrNothing.snd {e : Engine δ} {edited : Edited δ} (h : e.AllOrNothing edited)
    {err : Error} (herr : edited.1 = .error err) : edited.2 = e := by
  rcases h with ⟨_, rfl⟩ | hok
  · rfl
  · rw [hok] at herr
    cases herr

variable (e : Engine δ)

theorem addPort_allOrNothing (config : PortConfig) (driver : Option δ) :
    e.AllOrNothing (e.addPort config driver) := by
  refine (addPort_cases e config driver).imp_right ?_
  rintro ⟨slot, -, -, -, h⟩
  rw [h]

theorem unregister_allOrNothing (id : String) : e.AllOrNothing (e.unregister id) := by
  refine (unregister_cases e id).imp_right ?_
  rintro ⟨slot, p, -, -, h⟩
  rw [h]

theorem setExpression_allOrNothing (id source : String) :
    e.AllOrNothing (e.setExpression id source) := by
  refine (setExpression_cases e id source).imp_right ?_
  rintro ⟨slot, p, expr?, -, -, -, h⟩
  rw [h]

theorem setTransform_allOrNothing (set : Port δ → Option Expr → Port δ) (id source : String) :
    e.AllOrNothing (setTransform set e id source) := by
  refine (setTransform_cases set e id source).imp_right ?_
  rintro ⟨slot, p, transform, -, -, h⟩
  rw [h]

theorem setFilter_allOrNothing (id : String) (kind : FilterKind) (width : Nat) :
    e.AllOrNothing (e.setFilter id kind width) := by
  refine (setFilter_cases e id kind width).imp_right ?_
  rintro ⟨slot, p, -, ⟨filter, dirty, h, -⟩ | ⟨-, h⟩⟩
  · rw [h]
  · rw [h]

theorem enable_allOrNothing (id : String) : e.AllOrNothing (e.enable id) := by
  refine (enable_cases e id).imp_right ?_
  rintro ⟨slot, p, -, ⟨-, h⟩ | ⟨-, live, -, h⟩⟩
  · rw [h]
  · rw [h]

theorem disable_allOrNothing (id : String) : e.AllOrNothing (e.disable id) := by
  refine (disable_cases e id).imp_right ?_
  rintro ⟨slot, p, -, ⟨-, h⟩ | ⟨-, h⟩⟩
  · rw [h]
  · rw [h]

theorem touch_allOrNothing (id : String) : e.AllOrNothing (e.touch id) := by
  refine (touch_cases e id).imp_right ?_
  rintro ⟨slot, -, h⟩
  rw [h]

variable {e} [Driver δ] [Power] {operation : Operation δ}

/-- An edit is rejected and changes nothing, or it is accepted. -/
theorem exists_allOrNothing (hedit : operation.isEdit = true) :
    ∃ edited, e.AllOrNothing edited ∧ e.perform operation = (.edited edited.1, edited.2) := by
  cases operation with
  | addPort config driver => exact ⟨_, e.addPort_allOrNothing config driver, rfl⟩
  | unregister id => exact ⟨_, e.unregister_allOrNothing id, rfl⟩
  | setExpression id source => exact ⟨_, e.setExpression_allOrNothing id source, rfl⟩
  | setReadTransform id source => exact ⟨_, e.setTransform_allOrNothing _ id source, rfl⟩
  | setWriteTransform id source => exact ⟨_, e.setTransform_allOrNothing _ id source, rfl⟩
  | setFilter id kind width => exact ⟨_, e.setFilter_allOrNothing id kind width, rfl⟩
  | enable id => exact ⟨_, e.enable_allOrNothing id, rfl⟩
  | disable id => exact ⟨_, e.disable_allOrNothing id, rfl⟩
  | touch id => exact ⟨_, e.touch_allOrNothing id, rfl⟩
  | setValue | tick | takeNotifications | takeDirtyConfigs | adjustDriver => cases hedit

/-! ## Runs -/

/-- Whether an operation is an edit that the engine rejects. -/
def rejects (e : Engine δ) (operation : Operation δ) : Bool :=
  operation.isEdit &&
    match (e.perform operation).1 with
    | .edited (.error _) => true
    | _ => false

/-- The operations of a run without the edits that it rejects. -/
def accepted (e : Engine δ) : List (Operation δ) → List (Operation δ)
  | [] => []
  | operation :: rest =>
    if e.rejects operation then e.accepted rest
    else operation :: (e.perform operation).2.accepted rest

theorem perform_of_rejects (h : e.rejects operation = true) : (e.perform operation).2 = e := by
  unfold rejects at h
  rw [Bool.and_eq_true] at h
  rcases h with ⟨hedit, herr⟩
  split at herr
  · next err hreply =>
    rcases exists_allOrNothing (e := e) hedit with ⟨edited, hresult, heq⟩
    rw [heq] at hreply ⊢
    exact hresult.snd (Reply.edited.inj hreply)
  · cases herr

/-- A run leads to the same engine without the edits that it rejects. -/
theorem run_accepted (e : Engine δ) (operations : List (Operation δ)) :
    e.run (e.accepted operations) = e.run operations := by
  induction operations generalizing e with
  | nil => rfl
  | cons operation rest ih =>
    unfold accepted
    split
    · next hrejects =>
      show e.run (e.accepted rest) = (e.perform operation).2.run rest
      rw [perform_of_rejects hrejects]
      exact ih e
    · exact ih (e.perform operation).2

/-! ## Rejected edits -/

/-- A rejected edit leaves the engine as it was, the whole of it. -/
theorem perform_rejected (hedit : operation.isEdit = true) {err : Error}
    (h : (e.perform operation).1 = .edited (.error err)) : (e.perform operation).2 = e := by
  refine perform_of_rejects ?_
  unfold rejects
  rw [hedit, h]
  rfl

end

attribute [local instance] Power.rounded

/-- The port `a` references `b`, so `b` cannot reference `a`. -/
theorem perform_rejected_loop :
    let e := (start EngineConfig.initial : Engine Simulated).run [
      .addPort { PortConfig.virtualOutput "a" with expression := "RISING($b)" } none,
      .addPort (PortConfig.virtualOutput "b") none,
      .tick ⟨0, none⟩,
      .setValue "b" 1,
      .touch "a"]
    (e.setExpression "b" "ADD($a, 1)").1 = .error (.loop "b" 2) ∧
      (e.setExpression "b" "ADD($a, 1)").2 = e := by
  intro e
  have herr : (e.setExpression "b" "ADD($a, 1)").1 = .error (.loop "b" 2) := by
    decide +kernel
  have hreply : (e.perform (.setExpression "b" "ADD($a, 1)")).1 =
      .edited (.error (.loop "b" 2)) := congrArg Reply.edited herr
  exact ⟨herr, perform_rejected rfl hreply⟩

end Engine

end PortLogic
