import PortLogic.Device.Simulated
import PortLogic.Number.Power
import PortLogic.Proofs.Tells

/-!
# PortLogic.Proofs.Replay — an observer who replays the notifications

Whoever takes a copy of all values and then hears every notification in order has the values of the
engine at each later time (`Reachable.replay_values`). One exception has to be made, since a
registration tells nobody: a port whose registration has restored a value is known from its next
notification on. The copy follows identifiers rather than ports, so a port that is removed leaves an
entry without a value, which is what the next port of its identifier starts with.
-/

namespace PortLogic

open Table

namespace Engine

section

variable {δ : Type} [Driver δ] {e : Engine δ} {mirror : String → Value} {id : String}

/-- Who has heard every notification since a mirror was taken knows the value of a port, unless its
registration has restored one. -/
def Told (e : Engine δ) (mirror : String → Value) (id : String) (known : Option History) : Prop :=
  (∀ h, known = some h → h.config.restored = none) →
    replay mirror e.notifications id = e.table.values id

section Step

variable [Power] {known : Option History} {operation : Operation δ}

/-- A port that an operation neither registers nor removes was known before, if it has to be known
afterwards. -/
theorem Told.before (h : e.Told mirror id known)
    (hthere : known.isSome → (e.table.find? id).isSome)
    (hregisters : e.registers? id operation = none)
    (hstays : (e.table.find? id).isSome → ((e.perform operation).2.table.find? id).isSome)
    (hrestored : ∀ h, e.nextHistory id known operation = some h → h.config.restored = none) :
    replay mirror e.notifications id = e.table.values id := by
  refine h fun before hknown => ?_
  rw [hknown] at hthere
  rcases Option.isSome_iff_exists.mp (hstays (hthere rfl)) with ⟨p, hp⟩
  rw [nextHistory_of_found hregisters hp, hknown, Option.map_some] at hrestored
  exact (hrestored _ rfl :)

theorem addPort_told (hwired : e.table.Wired) (h : e.Told mirror id known)
    (hthere : known.isSome → (e.table.find? id).isSome) (config : PortConfig) (driver : Option δ) :
    (e.perform (.addPort config driver)).2.Told mirror id
      (e.nextHistory id known (.addPort config driver)) := by
  intro hrestored
  have hbefore (hregisters : e.registers? id (.addPort config driver) = none) :=
    h.before hthere hregisters (find?_isSome_of_perform hwired nofun) hrestored
  rcases addPort_values hwired config driver with ⟨hqueue, hcase⟩
  show replay mirror (e.addPort config driver).2.notifications id =
    (e.addPort config driver).2.table.values id
  rw [hqueue]
  by_cases hid : config.id = id
  · subst hid
    rcases hcase with ⟨hvalues, hregisters⟩ | ⟨hnew, hvalues, hregisters⟩
    · rw [hvalues]
      exact hbefore hregisters
    · -- the identifier was unknown, and the registration restores nothing
      rcases nextHistory_of_registers hwired known hregisters with ⟨p, -, hnext⟩
      rw [hvalues, Function.update_self, hrestored _ hnext, ← values_of_none hnew]
      refine h fun before hknown => ?_
      rw [hknown, hnew] at hthere
      cases hthere rfl
  · rw [hbefore (if_neg fun h => hid h.1)]
    rcases hcase with ⟨hvalues, -⟩ | ⟨-, hvalues, -⟩
    · rw [hvalues]
    · rw [hvalues, Function.update_of_ne (Ne.symm hid)]

theorem unregister_told (hwired : e.table.Wired) (h : e.Told mirror id known)
    (hthere : known.isSome → (e.table.find? id).isSome) (name : String) :
    (e.perform (.unregister name)).2.Told mirror id
      (e.nextHistory id known (.unregister name)) := by
  intro hrestored
  show replay mirror (e.unregister name).2.notifications id =
    (e.unregister name).2.table.values id
  rcases unregister_tells hwired.distinct name with hsame | htells
  · rw [hsame]
    refine h.before hthere rfl (fun hfound => ?_) hrestored
    show ((e.unregister name).2.table.find? id).isSome
    rwa [hsame]
  · by_cases hid : name = id
    · -- the port is gone, which is what the update says
      rw [htells.queue, htells.values, replay_append, hid, replay_portUpdate_self,
        replay_portUpdate_self]
    · have hremoves : (.unregister name : Operation δ) ≠ .unregister id := fun heq =>
        hid (Operation.unregister.inj heq)
      exact htells.brings
        (h.before hthere rfl (find?_isSome_of_perform hwired hremoves) hrestored)

/-- Every operation but a drain keeps an observer informed. -/
theorem perform_told (hreachable : e.Reachable) (h : e.Told mirror id known)
    (hthere : known.isSome → (e.table.find? id).isSome) (hdrains : operation ≠ .takeNotifications) :
    (e.perform operation).2.Told mirror id (e.nextHistory id known operation) := by
  have hwired := hreachable.wired
  have hkeeps (hkeeps : operation.KeepsPorts) :
      (e.perform operation).2.Told mirror id (e.nextHistory id known operation) := by
    intro hrestored
    rcases perform_tells hwired (fun _ _ hget => hreachable.fitting hget) hkeeps hdrains with
      ⟨ns, htells⟩
    have hregisters : e.registers? id operation = none := by
      cases operation <;> first | rfl | exact hkeeps.elim
    have hremoves : operation ≠ .unregister id := by
      rintro rfl
      exact hkeeps
    exact htells.brings
      (h.before hthere hregisters (find?_isSome_of_perform hwired hremoves) hrestored)
  cases operation with
  | addPort config driver => exact addPort_told hwired h hthere config driver
  | unregister name => exact unregister_told hwired h hthere name
  | _ => exact hkeeps trivial

end Step

variable [Power]

theorem run_told (hreachable : e.Reachable) (hempty : e.notifications = [])
    {operations : List (Operation δ)}
    (hdrains : ∀ operation ∈ operations, operation ≠ .takeNotifications) (id : String) :
    (e.run operations).Told e.table.values id (e.history? id none operations) := by
  induction operations using List.reverseRecOn with
  | nil =>
    intro _
    rw [show e.run [] = e from rfl, hempty]
    rfl
  | append_singleton rest operation ih =>
    rw [history?_append_singleton, run_append_singleton]
    refine perform_told (hreachable.run rest)
      (ih fun other hother => hdrains other (List.mem_append_left _ hother)) ?_
      (hdrains operation (List.mem_append_right _ List.mem_cons_self))
    intro hknown
    rcases Option.isSome_iff_exists.mp hknown with ⟨h, hh⟩
    exact find?_isSome_of_history? hh

/-- Replaying the notifications of a run on the values before it gives the value of every port
after it, unless the run registered the port and restored a value. -/
theorem Reachable.replay_values (h : e.Reachable) (hempty : e.notifications = [])
    {operations : List (Operation δ)}
    (hdrains : ∀ operation ∈ operations, operation ≠ .takeNotifications) {id : String} {v : Value}
    (hvalue : (e.run operations).value id = .ok v)
    (hrestored : ∀ h, e.history? id none operations = some h → h.config.restored = none) :
    replay e.table.values (e.run operations).notifications id = v := by
  rw [run_told h hempty hdrains id hrestored]
  unfold value at hvalue
  cases hfind : (e.run operations).table.find? id with
  | none =>
    rw [hfind] at hvalue
    cases hvalue
  | some p =>
    rw [hfind] at hvalue
    exact (values_of_some hfind).trans (Except.ok.inj hvalue)

end

attribute [local instance] Power.rounded

/-- The port is written, removed, registered again and written again. -/
theorem replay_after_registering_again :
    let e := (start EngineConfig.initial : Engine Simulated).run [
      .addPort (PortConfig.virtualOutput "a") none, .setValue "a" 1, .takeNotifications]
    let operations := [.setValue "a" 2, .unregister "a",
      .addPort (PortConfig.virtualOutput "a") none, .setValue "a" 3]
    (e.run operations).notifications =
        [.valueChange "a" (some 2), .portUpdate "a", .valueChange "a" (some 3)] ∧
      replay e.table.values (e.run operations).notifications "a" = some 3 := by
  intro e operations
  have hreachable : e.Reachable := (reachable_start _).run _
  have hdrains : ∀ operation ∈ operations, operation ≠ .takeNotifications := by
    intro operation hmem
    simp only [operations, List.mem_cons, List.not_mem_nil, or_false] at hmem
    rcases hmem with rfl | rfl | rfl | rfl <;> nofun
  have hhistory : e.history? "a" none operations =
      some ⟨PortConfig.virtualOutput "a", false⟩ := by decide +kernel
  refine ⟨by decide +kernel, ?_⟩
  refine Reachable.replay_values hreachable (by decide +kernel) hdrains (by decide +kernel) ?_
  intro h hh
  obtain rfl := Option.some.inj (hhistory.symm.trans hh)
  rfl

end Engine

end PortLogic
