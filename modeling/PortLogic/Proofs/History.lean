import PortLogic.Proofs.Between
import PortLogic.Proofs.Flush

/-!
# PortLogic.Proofs.History — what a run has done to a port

No state of an engine tells how its ports came to be there: from which configuration a port was
registered, and whether it has had a write transform since. The run tells, and `history?` carries
both along for one identifier, from the registration of the port that has it until the port goes.
-/

namespace PortLogic

open Table

/-- The value that a registration restores: the stored one, as far as it fits a port that keeps
it. -/
def PortConfig.restored (config : PortConfig) : Value :=
  if config.enabled ∧ config.persisted then
    config.value.bind (Port.fit config.kind config.min config.max)
  else none

/-- What a run tells of a port that it has registered. -/
structure History where
  config : PortConfig
  /-- Whether the port has had a write transform. -/
  transformed : Bool
deriving DecidableEq

namespace Table

variable {δ : Type} {t u : Table δ}

/-- The tables of moved ports have the same identifiers in the same slots. -/
theorem Moves.map_id (h : t.Moves u) (slot : Nat) :
    (u.get? slot).map Port.id = (t.get? slot).map Port.id := by
  have hport := h.port slot
  generalize t.get? slot = before at hport
  generalize u.get? slot = after at hport
  cases hport with
  | none => rfl
  | some hmoves => exact congrArg some hmoves.marked.id

end Table

namespace Engine

variable {δ : Type} {e : Engine δ} {id : String}

/-- A registered port has the value that its configuration restores. -/
theorem portOf_value (e : Engine δ) (config : PortConfig) (driver : Option δ) :
    (e.portOf config driver).value = config.restored := by
  rcases portOf_cases e config driver with ⟨_, _, hport, -⟩
  rw [hport]
  rfl

theorem portOf_id (e : Engine δ) (config : PortConfig) (driver : Option δ) :
    (e.portOf config driver).id = config.id := by
  rcases portOf_cases e config driver with ⟨_, _, hport, -⟩
  rw [hport]
  rfl

/-- The configuration that an operation registers under an identifier. -/
def registers? (e : Engine δ) (id : String) : Operation δ → Option PortConfig
  | .addPort config driver =>
    if config.id = id ∧ (e.addPort config driver).1.isOk then some config else none
  | _ => none

variable [Driver δ] [Power]

/-- What registers a port finds none of the identifier, and leaves the one of its configuration. -/
theorem registers?_eq_some (hwired : e.table.Wired) {operation : Operation δ} {config : PortConfig}
    (h : e.registers? id operation = some config) :
    config.id = id ∧ e.table.find? id = none ∧ ∃ driver, operation = .addPort config driver ∧
      ∃ triggers, (e.perform operation).2.table.find? id =
        some { e.portOf config driver with triggers } := by
  cases operation with
  | addPort config' driver =>
    unfold registers? at h
    simp only at h
    split at h
    · next hadds =>
      obtain rfl := Option.some.inj h
      rcases hadds with ⟨rfl, hok⟩
      rcases addPort_cases e config' driver with ⟨err, hadd⟩ | ⟨slot, -, hnew, hfree, hadd⟩
      · rw [hadd] at hok
        cases hok
      refine ⟨rfl, hnew, driver, rfl, ?_⟩
      have hreplaces := insert_replaces (e.portOf config' driver)
        (freeSlot?_eq_some hfree hwired.small).1
      rcases hreplaces slot with ⟨triggers, hget⟩
      rw [if_pos rfl, Option.map_some] at hget
      have hdistinct := (addPort_wired hwired config' driver).distinct
      refine ⟨triggers, ?_⟩
      show (e.addPort config' driver).2.table.find? config'.id = _
      rw [hadd] at hdistinct ⊢
      rw [← portOf_id e config' driver]
      exact (hdistinct.find? hget :)
    · cases h
  | _ => cases h

/-- The history of the port that has an identifier after an operation. -/
def nextHistory (e : Engine δ) (id : String) (known : Option History) (operation : Operation δ) :
    Option History :=
  ((e.perform operation).2.table.find? id).bind fun p =>
    match e.registers? id operation with
    | some config => some ⟨config, p.writeTransform.isSome⟩
    | none => known.map fun h => { h with transformed := h.transformed || p.writeTransform.isSome }

/-- What a run tells of the port that has an identifier in the end, from what was known of it
before. -/
def history? (e : Engine δ) (id : String) (known : Option History) :
    List (Operation δ) → Option History
  | [] => known
  | operation :: rest => (e.perform operation).2.history? id (e.nextHistory id known operation) rest

theorem run_append_singleton (e : Engine δ) (operations : List (Operation δ))
    (operation : Operation δ) :
    e.run (operations ++ [operation]) = ((e.run operations).perform operation).2 := by
  unfold run
  rw [List.foldl_append]
  rfl

theorem history?_append_singleton (e : Engine δ) (id : String) (known : Option History)
    (operations : List (Operation δ)) (operation : Operation δ) :
    e.history? id known (operations ++ [operation]) =
      (e.run operations).nextHistory id (e.history? id known operations) operation := by
  induction operations generalizing e known with
  | nil => rfl
  | cons first rest ih => exact ih _ _

/-- An operation that neither registers nor removes a port leaves every identifier in its slot. -/
theorem Operation.KeepsPorts.slotOf? {operation : Operation δ} (h : operation.KeepsPorts)
    (e : Engine δ) : (e.perform operation).2.table.slotOf? = e.table.slotOf? := by
  have hinPlace (h : operation.InPlace) :
      (e.perform operation).2.table.slotOf? = e.table.slotOf? :=
    slotOf?_congr (perform_moves e h).map_id
  cases operation with
  | addPort config driver => exact h.elim
  | unregister id => exact h.elim
  | takeDirtyConfigs now force => exact (takeDirtyConfigs_sameWiring e now force).slotOf?
  | _ => exact hinPlace trivial

/-- A port stays until it is removed. -/
theorem find?_isSome_of_perform (h : e.table.Wired) {operation : Operation δ}
    (hremoves : operation ≠ .unregister id) (hfound : (e.table.find? id).isSome) :
    ((e.perform operation).2.table.find? id).isSome := by
  rw [← Option.ne_none_iff_isSome, ne_eq, find?_eq_none] at hfound ⊢
  have hkeeps (h : operation.KeepsPorts) : (e.perform operation).2.table.slotOf? id ≠ none := by
    rw [h.slotOf? e]
    exact hfound
  cases operation with
  | addPort config driver =>
    show (e.addPort config driver).2.table.slotOf? id ≠ none
    rcases addPort_cases e config driver with ⟨err, hadd⟩ | ⟨slot, -, -, hfree, hadd⟩
    · rw [hadd]
      exact hfound
    rcases freeSlot?_eq_some hfree h.small with ⟨hle, -, hempty⟩
    rw [hadd]
    intro hnone
    refine hfound ((insert_replaces (e.portOf config driver) hle).slotOf?_eq_none ?_ hnone)
    intro p hp
    rw [hempty] at hp
    cases hp
  | unregister name =>
    show (e.unregister name).2.table.slotOf? id ≠ none
    rcases unregister_cases e name with ⟨err, hun⟩ | ⟨slot, p, hentry, -, hun⟩
    · rw [hun]
      exact hfound
    rcases entry?_eq_some hentry with ⟨-, hget, rfl⟩
    rw [hun]
    intro hnone
    refine hfound ((free_replaces e.table slot).slotOf?_eq_none ?_ hnone)
    intro q hq hid
    rw [← Option.some.inj (hget.symm.trans hq)] at hid
    exact absurd (congrArg Operation.unregister hid) hremoves
  | _ => exact hkeeps trivial

/-- A history is one of a port that is there. -/
theorem find?_isSome_of_history? {operations : List (Operation δ)} {h : History}
    (hhistory : e.history? id none operations = some h) :
    ((e.run operations).table.find? id).isSome := by
  induction operations using List.reverseRecOn with
  | nil => cases hhistory
  | append_singleton rest operation _ =>
    rw [history?_append_singleton] at hhistory
    rw [run_append_singleton]
    rcases Option.bind_eq_some_iff.mp hhistory with ⟨p, hp, -⟩
    rw [hp]
    rfl

/-- A port that was registered just now has its configuration as history. -/
theorem nextHistory_of_registers (hwired : e.table.Wired) (known : Option History)
    {operation : Operation δ} {config : PortConfig}
    (h : e.registers? id operation = some config) :
    ∃ p, (e.perform operation).2.table.find? id = some p ∧
      e.nextHistory id known operation = some ⟨config, p.writeTransform.isSome⟩ := by
  rcases registers?_eq_some hwired h with ⟨-, -, _, -, _, hfound⟩
  refine ⟨_, hfound, ?_⟩
  unfold nextHistory
  rw [hfound, Option.bind_some, h]

/-- A port that was not registered just now keeps its history, with its write transform noted. -/
theorem nextHistory_of_found {operation : Operation δ} {known : Option History} {p : Port δ}
    (hregisters : e.registers? id operation = none)
    (hp : (e.perform operation).2.table.find? id = some p) :
    e.nextHistory id known operation =
      known.map fun h => { h with transformed := h.transformed || p.writeTransform.isSome } := by
  unfold nextHistory
  rw [hp, Option.bind_some, hregisters]

end Engine

end PortLogic
