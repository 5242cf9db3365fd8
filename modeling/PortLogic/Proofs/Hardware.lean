import PortLogic.Device.Simulated
import PortLogic.Number.Power
import PortLogic.Proofs.Exchange

/-!
# PortLogic.Proofs.Hardware — the value of an output and what its device knows

An output without a write transform has the value that its device accepted last: a commit stores the
number that it has handed over, and everything else either keeps the value or takes it. Only a
registration brings in a value on its own, the restored one, and that one the device never hears of
(`value_agrees`, `restored_value_is_not_written`).
-/

namespace PortLogic

open Table

namespace Recorder

variable {δ : Type} {r s : Recorder δ} {x : Number}

theorem accepted_of_written (h : s.written = r.written) : s.accepted = r.accepted := by
  unfold accepted
  rw [h]

theorem accepted_of_accepted (h : s.written = r.written ++ [(x, true)]) :
    s.accepted = r.accepted ++ [x] := by
  unfold accepted
  rw [h, List.filter_append, List.map_append]
  rfl

theorem accepted_of_refused (h : s.written = r.written ++ [(x, false)]) :
    s.accepted = r.accepted := by
  unfold accepted
  rw [h, List.filter_append, List.map_append]
  exact List.append_nil _

end Recorder

namespace Port

variable {δ : Type} {h : History} {p q : Port (Recorder δ)}

theorem record_eq {r : Recorder δ} (hdriver : p.driver = some r) : p.record = some r.written :=
  congrArg (Option.map Recorder.written) hdriver

/-- The device of an output without a write transform has accepted the value last, or it has
accepted nothing and the value is the restored one. -/
def Known (h : History) (p : Port (Recorder δ)) : Prop :=
  p.output = true → h.transformed = false → p.writeTransform = none ∧
    ∀ r v, p.driver = some r → p.value = some v →
      r.accepted.getLast? = some v ∨ r.accepted = [] ∧ h.config.restored = some v

/-- A new device has accepted nothing, and the value is the restored one. -/
theorem known_of_restored {config : PortConfig} (hvalue : p.value = config.restored)
    (hnew : ∀ {written}, p.record = some written → written = []) :
    p.Known ⟨config, p.writeTransform.isSome⟩ := by
  intro _ hplain
  refine ⟨Option.isNone_iff_eq_none.mp (Option.isSome_eq_false_iff.mp hplain), ?_⟩
  intro r v hr hv
  refine Or.inr ⟨?_, hvalue.symm.trans hv⟩
  unfold Recorder.accepted
  rw [hnew (record_eq hr)]
  rfl

/-- A device that has accepted the same numbers knows a value that was kept. -/
theorem Known.keep (hknown : p.Known h) (houtput : p.output = true) (hplain : h.transformed = false)
    {r s : Recorder δ} {v : Number} (hdriver : p.driver = some r) (hsame : s.accepted = r.accepted)
    (hvalue : p.value = some v) :
    s.accepted.getLast? = some v ∨ s.accepted = [] ∧ h.config.restored = some v := by
  rw [hsame]
  exact (hknown houtput hplain).2 r v hdriver hvalue

variable [Power]

theorem Exchange.known (hexchange : p.Exchange q) (hknown : p.Known h) :
    q.Known { h with transformed := h.transformed || q.writeTransform.isSome } := by
  intro houtput htransformed
  rcases Bool.or_eq_false_iff.mp htransformed with ⟨hplain, hnone⟩
  refine ⟨Option.isNone_iff_eq_none.mp (Option.isSome_eq_false_iff.mp hnone), ?_⟩
  intro s v hs hv
  have hwritten := record_eq hs
  -- the record before, and the number handed over, which is the value without a transform
  have hbefore {f : List (Number × Bool) → List (Number × Bool)}
      (hrecord : q.record = p.record.map f) : ∃ r, p.driver = some r ∧ s.written = f r.written := by
    rw [hwritten] at hrecord
    rcases Option.map_eq_some_iff.mp hrecord.symm with ⟨written, hp, heq⟩
    rcases Option.map_eq_some_iff.mp hp with ⟨r, hr, rfl⟩
    exact ⟨r, hr, heq.symm⟩
  have houtgoing (hp : p.output = true) (y : Number) (now : Now) :
      (p.outgoing y now).1 = some y := by
    unfold outgoing
    rw [(hknown hp hplain).1]
  cases hexchange with
  | silent houtput' hrecord hvalue =>
    have hkept : q.record = p.record.map fun written => written := hrecord.trans Option.map_id'.symm
    rcases hbefore hkept with ⟨r, hr, hsame⟩
    have hp := houtput'.symm.trans houtput
    rcases hvalue hp with hkept | hlost
    · exact hknown.keep hp hplain hr (Recorder.accepted_of_written hsame) (hkept.symm.trans hv)
    · cases hlost.symm.trans hv
  | accepted houtput' hfit hsent hrecord hvalue =>
    rcases hbefore hrecord with ⟨r, hr, hsame⟩
    have hp := houtput'.symm.trans houtput
    rw [houtgoing hp] at hsent
    rw [Recorder.accepted_of_accepted hsame, List.getLast?_concat, ← hsent, ← hvalue, hv]
    exact Or.inl rfl
  | refused houtput' hfit hsent hrecord hvalue =>
    rcases hbefore hrecord with ⟨r, hr, hsame⟩
    exact hknown.keep (houtput'.symm.trans houtput) hplain hr (Recorder.accepted_of_refused hsame)
      (hvalue.symm.trans hv)

end Port

namespace Engine

section

variable {δ : Type} [Driver δ] [Power]

/-- After any run, the device of an output that has never had a write transform has accepted the
value last, unless it has accepted nothing and the registration has restored the value. -/
theorem value_agrees (settings : EngineConfig) (operations : List (Operation δ)) {name : String}
    {p : Port δ} {device : δ} {v : Number}
    (hfind : ((start settings).run operations).table.find? name = some p)
    (houtput : p.output = true) (hdriver : p.driver = some device) (hvalue : p.value = some v)
    (hplain : ∀ h, (start settings : Engine δ).history? name none operations = some h →
      h.transformed = false) :
    ∃ h q r, (start settings : Engine δ).history? name none operations = some h ∧
      recorded? settings operations name = some q ∧ q.erase = p ∧
      q.driver = some r ∧ r.device = device ∧
      (r.accepted.getLast? = some v ∨ r.accepted = [] ∧ h.config.restored = some v) := by
  rw [← recorded?_erase] at hfind
  rcases Option.map_eq_some_iff.mp hfind with ⟨q, hq, rfl⟩
  rcases recorded_induction (motive := Port.Known) Port.known_of_restored
    (fun _ hexchange hknown => hexchange.known hknown) settings operations hq with ⟨h, hh, hknown⟩
  rcases Option.map_eq_some_iff.mp hdriver with ⟨r, hr, rfl⟩
  exact ⟨h, q, r, hh, hq, rfl, hr, rfl, (hknown houtput (hplain h hh)).2 r v hr hvalue⟩

end

attribute [local instance] Power.rounded

/-- A device that has not been asked anything. -/
def idleDevice : Simulated :=
  .sensor ⟨⟨none, false, []⟩, none⟩

/-- A value is restored and another one is written: the device has accepted that one. -/
theorem value_agrees_after_write :
    let config := { PortConfig.outputOf "a" .number with persisted := true, value := some 1 }
    let operations := [.addPort config (some idleDevice), .setValue "a" 2, .tick ⟨0, none⟩]
    ((start EngineConfig.initial : Engine Simulated).run operations).value "a" = .ok (some 2) ∧
      ∃ q r, recorded? EngineConfig.initial operations "a" = some q ∧ q.driver = some r ∧
        r.accepted.getLast? = some 2 := by
  intro config operations
  have hfields : (((start EngineConfig.initial : Engine Simulated).run operations).table.find?
      "a").map (fun p => (p.output, p.value, p.driver.isSome)) = some (true, some 2, true) := by
    decide +kernel
  have hhistory : (start EngineConfig.initial : Engine Simulated).history? "a" none operations =
      some ⟨config, false⟩ := by decide +kernel
  rcases Option.map_eq_some_iff.mp hfields with ⟨p, hfind, heq⟩
  rcases Prod.mk.inj heq with ⟨houtput, heq⟩
  rcases Prod.mk.inj heq with ⟨hvalue, hdriver⟩
  rcases Option.isSome_iff_exists.mp hdriver with ⟨device, hdevice⟩
  rcases value_agrees EngineConfig.initial operations hfind houtput hdevice hvalue
      (fun h hh => by rw [← Option.some.inj (hhistory.symm.trans hh)]) with
    ⟨h, q, r, hh, hq, -, hr, -, hlast | ⟨-, hrestored⟩⟩
  · exact ⟨by decide +kernel, q, r, hq, hr, hlast⟩
  · -- the restored value is another one
    rw [← Option.some.inj (hhistory.symm.trans hh)] at hrestored
    exact absurd hrestored (by decide +kernel)

/-- A restored value, of which the device has not been told. -/
theorem restored_value_is_not_written :
    let config := { PortConfig.outputOf "a" .number with persisted := true, value := some 1 }
    let operations := [.addPort config (some idleDevice)]
    (start EngineConfig.initial : Engine Simulated).history? "a" none operations =
        some ⟨config, false⟩ ∧
      (recorded? EngineConfig.initial operations "a").map
        (fun q => (q.enabled, q.output)) = some (true, true) ∧
      (recorded? EngineConfig.initial operations "a").map
        (fun q => (q.value, q.record)) = some (some 1, some []) :=
  ⟨by decide +kernel, by decide +kernel, by decide +kernel⟩

end Engine

end PortLogic
