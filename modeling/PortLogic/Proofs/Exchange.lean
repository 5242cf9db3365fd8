import PortLogic.Proofs.Evaluation
import PortLogic.Proofs.History
import PortLogic.Proofs.Recorder
import PortLogic.Proofs.Stored

/-!
# PortLogic.Proofs.Exchange — what an operation tells a device

Whatever the operation, it hands at most one number to the device of a port, and an output takes a
value only together with that number and only when the device accepts it (`Port.Exchange`). A
registration is apart: it restores a value and hands nothing to the device. So what is true of the
histories and the records of ports when they are registered, and is kept by exchanges, is true in
every run (`recorded_induction`).
-/

namespace PortLogic

open Table

namespace Port

variable {δ : Type} {p q r : Port (Recorder δ)}

/-- The record of the device of a port. -/
def record (p : Port (Recorder δ)) : Option (List (Number × Bool)) :=
  p.driver.map Recorder.written

variable [Power]

/-- What becomes of the value and the record of a port in one operation. -/
inductive Exchange (p q : Port (Recorder δ)) : Prop where
  /-- The device is handed nothing, and an output keeps its value or loses it. -/
  | silent (houtput : q.output = p.output) (hrecord : q.record = p.record)
      (hvalue : p.output = true → q.value = p.value ∨ q.value = none)
  /-- The device accepts what the write transform makes of a value that fits. -/
  | accepted {x y sent : Number} {now : Now} (houtput : q.output = p.output)
      (hfit : p.normalize x = some y) (hsent : (p.outgoing y now).1 = some sent)
      (hrecord : q.record = p.record.map (· ++ [(sent, true)])) (hvalue : q.value = some y)
  /-- The device refuses it. -/
  | refused {x y sent : Number} {now : Now} (houtput : q.output = p.output)
      (hfit : p.normalize x = some y) (hsent : (p.outgoing y now).1 = some sent)
      (hrecord : q.record = p.record.map (· ++ [(sent, false)])) (hvalue : q.value = p.value)

namespace Exchange

theorem refl (p : Port (Recorder δ)) : p.Exchange p :=
  .silent rfl rfl fun _ => Or.inl rfl

/-- A port that differs in nothing that an exchange is about takes the place of the first one. -/
theorem of_prepared (h : q.Exchange r) (houtput : q.output = p.output)
    (hrecord : q.record = p.record) (hvalue : q.value = p.value)
    (hnormalize : q.normalize = p.normalize) (houtgoing : q.outgoing = p.outgoing) :
    p.Exchange r := by
  cases h with
  | silent houtput' hrecord' hvalue' =>
    refine .silent (houtput'.trans houtput) (hrecord'.trans hrecord) ?_
    rwa [houtput, hvalue] at hvalue'
  | accepted houtput' hfit hsent hrecord' hvalue' =>
    rw [hnormalize] at hfit
    rw [houtgoing] at hsent
    rw [hrecord] at hrecord'
    exact .accepted (houtput'.trans houtput) hfit hsent hrecord' hvalue'
  | refused houtput' hfit hsent hrecord' hvalue' =>
    rw [hnormalize] at hfit
    rw [houtgoing] at hsent
    rw [hrecord] at hrecord'
    exact .refused (houtput'.trans houtput) hfit hsent hrecord' (hvalue'.trans hvalue)

/-- What an exchange is not about may change besides. -/
theorem and_then (h : p.Exchange q) (houtput : r.output = q.output) (hrecord : r.record = q.record)
    (hvalue : r.value = q.value) : p.Exchange r := by
  cases h with
  | silent houtput' hrecord' hvalue' =>
    rw [← hvalue] at hvalue'
    exact .silent (houtput.trans houtput') (hrecord.trans hrecord') hvalue'
  | accepted houtput' hfit hsent hrecord' hvalue' =>
    exact .accepted (houtput.trans houtput') hfit hsent (hrecord.trans hrecord')
      (hvalue.trans hvalue')
  | refused houtput' hfit hsent hrecord' hvalue' =>
    exact .refused (houtput.trans houtput') hfit hsent (hrecord.trans hrecord')
      (hvalue.trans hvalue')

end Exchange

theorem takeSample_record (p : Port (Recorder δ)) (raw : Number) (now : Now) :
    (p.takeSample raw now).port.record = p.record := by
  rcases p.takeSample_cases raw now with ⟨_, _, -, -, heq | ⟨_, _, -, heq⟩⟩
  · rw [heq]
    rfl
  · rw [heq, acceptSample]
    split <;> rfl

variable [Driver δ]

/-- Reading a device hands it nothing. -/
theorem sample_record (p : Port (Recorder δ)) (now : Now) :
    (p.sample now).port.record = p.record := by
  unfold sample
  split
  · simp only
    split
    · rfl
    next recorder hdriver =>
    have hread : p.record = some recorder.written := congrArg (Option.map Recorder.written) hdriver
    rw [hread]
    split
    · rfl
    · exact takeSample_record _ _ now
  · rfl

/-- A write that fails before the device is reached, or hands the device one number. -/
theorem write_record (p : Port (Recorder δ)) (x : Number) (now : Now) :
    ((p.write x now).2.record = p.record ∧ ∃ err, (p.write x now).1 = .error err) ∨
      ∃ sent, (p.outgoing x now).1 = some sent ∧
        ((p.write x now).1 = .ok () ∧
            (p.write x now).2.record = p.record.map (· ++ [(sent, true)]) ∨
          (∃ err, (p.write x now).1 = .error err) ∧
            (p.write x now).2.record = p.record.map (· ++ [(sent, false)])) := by
  unfold write drive
  rcases p.outgoing x now with ⟨_ | sent, transform⟩
  · exact Or.inl ⟨rfl, _, rfl⟩
  refine Or.inr ⟨sent, rfl, ?_⟩
  simp only
  split
  · next hdriver => exact Or.inl ⟨rfl, by simp [record, hdriver]⟩
  next recorder hdriver =>
  have hrecord : p.record = some recorder.written := congrArg (Option.map Recorder.written) hdriver
  rw [hrecord]
  show ((Driver.write recorder.device sent).1.mapError _ = _ ∧
      some (recorder.written ++ [(sent, (Driver.write recorder.device sent).1.isOk)]) = _) ∨
    (∃ err, (Driver.write recorder.device sent).1.mapError _ = .error err) ∧
      some (recorder.written ++ [(sent, (Driver.write recorder.device sent).1.isOk)]) = _
  cases (Driver.write recorder.device sent).1 with
  | ok done => exact Or.inl ⟨rfl, rfl⟩
  | error err => exact Or.inr ⟨⟨_, rfl⟩, rfl⟩

/-- Writing a value that fits, and committing it when that succeeds, is an exchange. -/
theorem write_exchange {x y : Number} (hfit : p.normalize x = some y) {now : Now} {q}
    {result : Except Error Unit} (reason : ChangeReason) (hwrite : p.write y now = (result, q)) :
    p.Exchange (if result.isOk then q.committed y reason else q) := by
  have hkept : q.output = p.output ∧ q.value = p.value := by
    rcases p.write_snd y now with ⟨_, _, -, hport⟩
    rw [show q = (p.write y now).2 from hwrite ▸ rfl, hport]
    exact ⟨rfl, rfl⟩
  have hrecords := p.write_record y now
  rw [hwrite] at hrecords
  rcases hrecords with ⟨hrecord, err, rfl⟩ | ⟨sent, hsent, ⟨rfl, hrecord⟩ | ⟨⟨err, rfl⟩, hrecord⟩⟩
  · exact .silent hkept.1 hrecord fun _ => Or.inl hkept.2
  · exact .accepted hkept.1 hfit hsent hrecord rfl
  · exact .refused hkept.1 hfit hsent hrecord hkept.2

end Port

namespace Table

variable [Power] {δ : Type} {t u v : Table (Recorder δ)} {slot : Nat} {p q : Port (Recorder δ)}

/-- Every port was there before, and has exchanged something with its device at most once. -/
def Exchanges (t u : Table (Recorder δ)) : Prop :=
  ∀ ⦃slot q⦄, u.get? slot = some q → ∃ p, t.get? slot = some p ∧ p.Exchange q

theorem Exchanges.refl (t : Table (Recorder δ)) : t.Exchanges t := by
  intro slot p hget
  exact ⟨p, hget, Port.Exchange.refl p⟩

theorem Exchanges.map {f : Port (Recorder δ) → Port (Recorder δ)}
    (hf : ∀ p : Port (Recorder δ), p.Exchange (f p)) :
    t.Exchanges (t.map f) := by
  intro slot q hget
  rw [get?_map] at hget
  rcases Option.map_eq_some_iff.mp hget with ⟨p, hp, rfl⟩
  exact ⟨p, hp, hf p⟩

theorem Exchanges.modify {f : Port (Recorder δ) → Port (Recorder δ)}
    (hf : ∀ p, t.get? slot = some p → p.Exchange (f p)) : t.Exchanges (t.modify slot f) := by
  intro other q hget
  rw [get?_modify] at hget
  split at hget
  · next heq =>
    subst heq
    rcases Option.map_eq_some_iff.mp hget with ⟨p, hp, rfl⟩
    exact ⟨p, hp, hf p hp⟩
  · exact ⟨q, hget, Port.Exchange.refl q⟩

theorem Exchanges.refreshTriggers (h : t.Exchanges u) : t.Exchanges u.refreshTriggers := by
  intro slot q hget
  unfold Table.refreshTriggers at hget
  rw [get?_map] at hget
  rcases Option.map_eq_some_iff.mp hget with ⟨r, hr, rfl⟩
  rcases h hr with ⟨p, hp, hexchange⟩
  exact ⟨p, hp, hexchange.and_then rfl rfl rfl⟩

/-- A port that was found in a slot other than the one that is replaced has exchanged nothing. -/
theorem Replaces.exchange {entry : Option (Port (Recorder δ))} {name : String} (ht : t.Distinct)
    (h : t.Replaces slot entry u) (hentry : ∀ r, entry = some r → r.id ≠ name)
    (hq : u.find? name = some q) : ∃ p, t.find? name = some p ∧ p.Exchange q := by
  rcases find?_eq_some hq with ⟨other, -, hget, hid⟩
  by_cases hother : slot = other
  · subst hother
    rcases h.get?_self hget with ⟨r, _, hr, rfl⟩
    exact absurd hid (hentry r hr)
  · rcases h.get?_of_ne hother hget with ⟨p, _, hp, rfl⟩
    refine ⟨p, ?_, (Port.Exchange.refl p).and_then rfl rfl rfl⟩
    rw [← hid]
    exact ht.find? hp

end Table

namespace Engine

variable [Power] {δ : Type} {e : Engine (Recorder δ)} {slot : Nat} {p q : Port (Recorder δ)}
  {name : String}

theorem modify_exchanges (hentry : e.entry? name = some (slot, p)) (h : p.Exchange q) :
    e.table.Exchanges (e.table.modify slot fun _ => q) := by
  rcases entry?_eq_some hentry with ⟨-, hget, -⟩
  refine Exchanges.modify fun r hr => ?_
  rwa [← Option.some.inj (hget.symm.trans hr)]

theorem setExpression_exchanges (e : Engine (Recorder δ)) (name source : String) :
    e.table.Exchanges (e.setExpression name source).2.table := by
  rcases setExpression_cases e name source with ⟨err, h⟩ | ⟨slot, p, expr?, hentry, -, -, h⟩
  · rw [h]
    exact Exchanges.refl _
  · rw [h]
    exact Exchanges.refreshTriggers (modify_exchanges hentry (.silent rfl rfl fun _ => Or.inl rfl))

theorem setTransform_exchanges {set : Port (Recorder δ) → Option Expr → Port (Recorder δ)}
    (hset : ∀ (p : Port (Recorder δ)) transform, p.Exchange (set p transform))
    (e : Engine (Recorder δ)) (name source : String) :
    e.table.Exchanges (setTransform set e name source).2.table := by
  rcases setTransform_cases set e name source with ⟨err, h⟩ | ⟨slot, p, transform, hentry, -, h⟩
  · rw [h]
    exact Exchanges.refl _
  · rw [h]
    exact modify_exchanges hentry ((hset p transform).and_then rfl rfl rfl)

theorem setFilter_exchanges (e : Engine (Recorder δ)) (name : String) (kind : FilterKind)
    (width : Nat) : e.table.Exchanges (e.setFilter name kind width).2.table := by
  rcases setFilter_cases e name kind width with
    ⟨err, h⟩ | ⟨slot, p, hentry, ⟨filter, dirty, h, -⟩ | ⟨-, h⟩⟩
  · rw [h]
    exact Exchanges.refl _
  · rw [h]
    exact modify_exchanges hentry (.silent rfl rfl fun _ => Or.inl rfl)
  · rw [h]
    exact modify_exchanges hentry (.silent rfl rfl fun _ => Or.inr rfl)

theorem enable_exchanges (e : Engine (Recorder δ)) (name : String) :
    e.table.Exchanges (e.enable name).2.table := by
  rcases enable_cases e name with ⟨err, h⟩ | ⟨slot, p, hentry, ⟨-, h⟩ | ⟨-, live, -, h⟩⟩
  · rw [h]
    exact Exchanges.refl _
  · rw [h]
    exact Exchanges.refl _
  · rw [h]
    exact Exchanges.refreshTriggers (modify_exchanges hentry (.silent rfl rfl fun _ => Or.inl rfl))

theorem disable_exchanges (e : Engine (Recorder δ)) (name : String) :
    e.table.Exchanges (e.disable name).2.table := by
  rcases disable_cases e name with ⟨err, h⟩ | ⟨slot, p, hentry, ⟨-, h⟩ | ⟨-, h⟩⟩
  · rw [h]
    exact Exchanges.refl _
  · rw [h]
    exact Exchanges.refl _
  · rw [h]
    exact modify_exchanges hentry (.silent rfl rfl fun _ => Or.inr rfl)

theorem touch_exchanges (e : Engine (Recorder δ)) (name : String) :
    e.table.Exchanges (e.touch name).2.table := by
  rcases touch_cases e name with ⟨err, h⟩ | ⟨slot, -, h⟩
  · rw [h]
    exact Exchanges.refl _
  · rw [h]
    exact Exchanges.refl _

theorem takeDirtyConfigs_exchanges (e : Engine (Recorder δ)) (now : Now) (force : Bool) :
    e.table.Exchanges (e.takeDirtyConfigs now force).2.table := by
  unfold takeDirtyConfigs
  split
  · exact Exchanges.refl _
  · exact Exchanges.map fun p => .silent rfl rfl fun _ => Or.inl rfl

theorem adjustDriver_exchanges (e : Engine (Recorder δ)) (name : String) (f : δ → δ) :
    e.table.Exchanges (e.adjustDriver name fun r => { r with device := f r.device }).table := by
  unfold adjustDriver
  split
  · exact Exchanges.refl _
  · refine Exchanges.modify fun p _ => .silent rfl ?_ fun _ => Or.inl rfl
    unfold Port.record
    rw [Option.map_map]
    rfl

variable [Driver δ]

theorem commit_exchange (e : Engine (Recorder δ)) (slot : Nat) {x y : Number}
    (hfit : p.normalize x = some y) (reason : ChangeReason) :
    ∃ q, (e.commit slot p y reason).2.table = e.table.modify slot (fun _ => q) ∧
      p.Exchange q := by
  rcases hwrite : p.write y e.now with ⟨err | ⟨⟨⟩⟩, q⟩
  · refine ⟨q, ?_, p.write_exchange hfit reason hwrite⟩
    unfold commit
    rw [hwrite]
    rfl
  · refine ⟨q.committed y reason, ?_, p.write_exchange hfit reason hwrite⟩
    unfold commit
    rw [hwrite]
    rfl

theorem setValue_exchanges (e : Engine (Recorder δ)) (name : String) (x : Number) :
    e.table.Exchanges (e.setValue name x).2.table := by
  rcases setValue_cases e name x with ⟨err, h⟩ | ⟨slot, p, y, hentry, -, -, hfit, h⟩
  · rw [h]
    exact Exchanges.refl _
  · rcases e.commit_exchange slot hfit .native with ⟨q, hq, hexchange⟩
    rw [h, hq]
    exact modify_exchanges hentry hexchange

/-! ### Ticks -/

theorem offer_exchange (hget : e.table.get? slot = some p) (value : Value) :
    ∃ q, (e.offer slot p value).2.table.get? slot = some q ∧ p.Exchange q := by
  unfold offer
  split
  · exact ⟨p, hget, Port.Exchange.refl p⟩
  next y hy =>
  rcases Option.bind_eq_some_iff.mp hy with ⟨x, -, hfit⟩
  split
  · exact ⟨p, hget, Port.Exchange.refl p⟩
  rcases e.commit_exchange slot hfit .expression with ⟨q, hq, hexchange⟩
  have hslot : (e.commit slot p y .expression).2.table.get? slot = some q := by
    rw [hq, get?_modify, if_pos rfl, hget, Option.map_some]
  split
  · next heq =>
    rw [heq] at hslot
    exact ⟨q, hslot, hexchange⟩
  · next heq =>
    rw [heq] at hslot
    exact ⟨q, hslot, hexchange⟩

/-- An evaluation is an exchange of the port that is evaluated. -/
theorem evaluateLive_exchange (hget : e.table.get? slot = some p) (expr : Expr) (now : Now) :
    ∃ q, (e.evaluateLive slot p expr now).2.table.get? slot = some q ∧ p.Exchange q := by
  rw [evaluateLive_eq_offer]
  rcases offer_exchange (modify_get?_self hget _) _ with ⟨q, hq, hexchange⟩
  exact ⟨q, hq, hexchange.of_prepared rfl rfl rfl rfl rfl⟩

theorem tick_exchanges (e : Engine (Recorder δ)) (now : Now) :
    e.table.Exchanges (e.tick now).2.table := by
  intro slot q hq
  cases hget : e.table.get? slot with
  | none =>
    rw [tick_get?_of_none hget] at hq
    cases hq
  | some p =>
    refine ⟨p, rfl, ?_⟩
    have hready := ready_get?_of_some hget now
    rcases (p.sample now).port.acknowledge_eq with ⟨reason, detected, hack⟩
    rw [hack] at hready
    cases houtput : p.output with
    | true =>
      rw [Port.sample_of_output houtput] at hready
      rcases tick_get?_cases hready with ⟨-, hafter⟩ | ⟨expr, hfires, hafter⟩
      · rw [hafter] at hq
        rw [← Option.some.inj hq]
        exact .silent rfl rfl fun _ => Or.inl rfl
      · rcases evaluateLive_exchange (atTurn_get?_self hready) expr now with ⟨r, hr, hexchange⟩
        rw [hafter, hr] at hq
        rw [← Option.some.inj hq]
        exact hexchange.of_prepared rfl rfl rfl rfl rfl
    | false =>
      -- an input is not evaluated, and reading its device hands nothing to it
      have hkind : (p.sample now).port.output = p.output :=
        congrArg Port.Wiring.output (p.sample_wiring now)
      rcases tick_get?_cases hready with ⟨-, hafter⟩ | ⟨expr, hfires, -⟩
      · rw [hafter] at hq
        rw [← Option.some.inj hq]
        refine .silent hkind (p.sample_record now) ?_
        intro hp
        cases hp.symm.trans houtput
      · cases (hfires.output.symm.trans hkind).trans houtput

/-! ### All operations -/

/-- An operation that neither registers nor removes a port lets every port exchange something with
its device at most once. -/
theorem perform_exchanges (e : Engine (Recorder δ)) {operation : Operation δ}
    (h : operation.recorded.KeepsPorts) :
    e.table.Exchanges (e.perform operation.recorded).2.table := by
  cases operation with
  | addPort config driver => exact h.elim
  | unregister name => exact h.elim
  | setValue name x => exact setValue_exchanges e name x
  | setExpression name source => exact setExpression_exchanges e name source
  | setReadTransform name source =>
    have hset (p : Port (Recorder δ)) (transform : Option Expr) :
        p.Exchange { p with readTransform := transform } := .silent rfl rfl fun _ => Or.inl rfl
    exact setTransform_exchanges hset e name source
  | setWriteTransform name source =>
    have hset (p : Port (Recorder δ)) (transform : Option Expr) :
        p.Exchange { p with writeTransform := transform } := .silent rfl rfl fun _ => Or.inl rfl
    exact setTransform_exchanges hset e name source
  | setFilter name kind width => exact setFilter_exchanges e name kind width
  | enable name => exact enable_exchanges e name
  | disable name => exact disable_exchanges e name
  | touch name => exact touch_exchanges e name
  | tick now => exact tick_exchanges e now
  | takeNotifications => exact Exchanges.refl _
  | takeDirtyConfigs now force => exact takeDirtyConfigs_exchanges e now force
  | adjustDriver name f => exact adjustDriver_exchanges e name f

/-- A port that an operation has not registered was there before, and has exchanged something with
its device at most once. -/
theorem perform_exchange (hwired : e.table.Wired) {operation : Operation δ}
    (hregisters : e.registers? name operation.recorded = none)
    (hq : (e.perform operation.recorded).2.table.find? name = some q) :
    ∃ p, e.table.find? name = some p ∧ p.Exchange q := by
  have hkeeps (h : operation.recorded.KeepsPorts) :
      ∃ p, e.table.find? name = some p ∧ p.Exchange q := by
    rcases find?_eq_some hq with ⟨slot, hslot, hget, -⟩
    rcases perform_exchanges e h hget with ⟨p, hp, hexchange⟩
    refine ⟨p, ?_, hexchange⟩
    rw [find?, ← h.slotOf? e, hslot, Option.bind_some, hp]
  cases operation with
  | addPort config driver =>
    rcases addPort_cases e config (driver.map Recorder.fresh) with
      ⟨err, hadd⟩ | ⟨slot, -, -, hfree, hadd⟩
    · have hsame : (e.perform (Operation.recorded (.addPort config driver))).2 = e :=
        congrArg Prod.snd hadd
      rw [hsame] at hq
      exact ⟨q, hq, Port.Exchange.refl q⟩
    · have hid : config.id ≠ name := by
        intro hid
        have hsome : e.registers? name (.addPort config (driver.map Recorder.fresh)) =
            some config := if_pos ⟨hid, hadd ▸ rfl⟩
        cases hsome.symm.trans hregisters
      refine (insert_replaces (e.portOf config (driver.map Recorder.fresh))
        (freeSlot?_eq_some hfree hwired.small).1).exchange hwired.distinct ?_ ?_
      · intro r hr
        rwa [← Option.some.inj hr, portOf_id]
      · have hsnd := congrArg (fun outcome : Edited (Recorder δ) => outcome.2.table.find? name) hadd
        exact hsnd.symm.trans hq
  | unregister name' =>
    rcases unregister_cases e name' with ⟨err, hun⟩ | ⟨slot, p, -, -, hun⟩
    · have hsame : (e.perform (Operation.recorded (.unregister name'))).2 = e :=
        congrArg Prod.snd hun
      rw [hsame] at hq
      exact ⟨q, hq, Port.Exchange.refl q⟩
    · refine (free_replaces e.table slot).exchange hwired.distinct (fun r hr => by cases hr) ?_
      have hsnd := congrArg (fun outcome : Edited (Recorder δ) => outcome.2.table.find? name) hun
      exact hsnd.symm.trans hq
  | _ => exact hkeeps trivial

/-! ## Runs with recorders -/

/-- The port of an identifier after a run in which every device keeps a record. -/
def recorded? (settings : EngineConfig) (operations : List (Operation δ)) (name : String) :
    Option (Port (Recorder δ)) :=
  ((start settings).run (operations.map Operation.recorded)).table.find? name

/-- Apart from its record, a port after a run with recorders is the port after the run. -/
theorem recorded?_erase (settings : EngineConfig) (operations : List (Operation δ))
    (name : String) :
    (recorded? settings operations name).map Port.erase =
      ((start settings).run operations).table.find? name := by
  unfold recorded?
  rw [← erase_find?]
  exact congrArg (fun e : Engine δ => e.table.find? name) (erase_run (start settings) operations)

theorem erase_nextHistory (e : Engine (Recorder δ)) (name : String) (known : Option History)
    (operation : Operation δ) :
    e.nextHistory name known operation.recorded = e.erase.nextHistory name known operation := by
  have hregisters : e.registers? name operation.recorded = e.erase.registers? name operation := by
    cases operation with
    | addPort config driver =>
      have hresult := congrArg Prod.fst (erase_addPort e config (driver.map Recorder.fresh))
      rw [Recorder.map_device_fresh] at hresult
      show (if config.id = name ∧ (e.addPort config (driver.map Recorder.fresh)).1.isOk
        then some config else none) = _
      rw [show (e.addPort config (driver.map Recorder.fresh)).1 = _ from hresult]
      rfl
    | _ => rfl
  have hfind : (e.erase.perform operation).2.table.find? name =
      ((e.perform operation.recorded).2.table.find? name).map Port.erase := by
    rw [← erase_find?, ← erase_perform]
    rfl
  unfold nextHistory
  rw [hregisters, hfind, Option.bind_map]
  rfl

/-- Records are no part of the history of a port. -/
theorem erase_history? (e : Engine (Recorder δ)) (name : String) (known : Option History)
    (operations : List (Operation δ)) :
    e.history? name known (operations.map Operation.recorded) =
      e.erase.history? name known operations := by
  induction operations generalizing e known with
  | nil => rfl
  | cons operation rest ih =>
    have hafter : (e.perform operation.recorded).2.erase = (e.erase.perform operation).2 :=
      congrArg Prod.snd (erase_perform e operation)
    show (e.perform operation.recorded).2.history? name
        (e.nextHistory name known operation.recorded) _ = _
    rw [ih, hafter, erase_nextHistory]
    rfl

omit [Driver δ] in
omit [Power] in
/-- A new device has an empty record. -/
theorem portOf_record (e : Engine (Recorder δ)) (config : PortConfig) (driver : Option δ)
    {written : List (Number × Bool)}
    (h : (e.portOf config (driver.map Recorder.fresh)).record = some written) : written = [] := by
  rcases portOf_cases e config (driver.map Recorder.fresh) with ⟨_, _, hport, -⟩
  rw [hport] at h
  rcases Option.map_eq_some_iff.mp h with ⟨recorder, hrecorder, rfl⟩
  rcases Option.map_eq_some_iff.mp hrecorder with ⟨device, -, rfl⟩
  rfl

/-- What is true of every port and its history when it is registered, with its value restored and
an empty record, and is kept by every exchange, is true of every port after a run. -/
theorem recorded_induction {motive : History → Port (Recorder δ) → Prop}
    (hadd : ∀ {config p}, p.value = config.restored →
      (∀ {written}, p.record = some written → written = []) →
      motive ⟨config, p.writeTransform.isSome⟩ p)
    (hstep : ∀ {h p q}, p.Stored → p.Exchange q → motive h p →
      motive { h with transformed := h.transformed || q.writeTransform.isSome } q)
    (settings : EngineConfig) (operations : List (Operation δ)) {name : String}
    {q : Port (Recorder δ)} (hq : recorded? settings operations name = some q) :
    ∃ h, (start settings : Engine δ).history? name none operations = some h ∧ motive h q := by
  rw [show (start settings : Engine δ) = (start settings : Engine (Recorder δ)).erase from rfl,
    ← erase_history?]
  unfold recorded? at hq
  induction operations using List.reverseRecOn generalizing q with
  | nil => cases hq
  | append_singleton rest operation ih =>
    have hreachable : ((start settings : Engine (Recorder δ)).run
        (rest.map Operation.recorded)).Reachable := ⟨settings, _, rfl⟩
    rw [List.map_append, List.map_singleton] at hq ⊢
    rw [run_append_singleton] at hq
    rw [history?_append_singleton]
    generalize (start settings : Engine (Recorder δ)).run (rest.map Operation.recorded) = e at *
    -- a registration starts the history and the record, anything else goes on with both
    cases hregisters : e.registers? name operation.recorded with
    | some config =>
      rcases registers?_eq_some hreachable.wired hregisters with ⟨-, -, driver', hop, triggers, hp⟩
      rcases nextHistory_of_registers hreachable.wired
        ((start settings).history? name none (rest.map Operation.recorded)) hregisters with
        ⟨r, hr, hnext⟩
      obtain rfl := Option.some.inj (hr.symm.trans hq)
      refine ⟨_, hnext, ?_⟩
      cases operation with
      | addPort config' driver =>
        rcases Operation.addPort.inj hop with ⟨rfl, rfl⟩
        rw [Option.some.inj (hr.symm.trans hp)]
        exact hadd (portOf_value e config' _) (portOf_record e config' driver)
      | _ => cases hop
    | none =>
      rcases perform_exchange hreachable.wired hregisters hq with ⟨p, hp, hexchange⟩
      rcases ih hp with ⟨h, hh, hmotive⟩
      rw [nextHistory_of_found hregisters hq, hh, Option.map_some]
      rcases find?_eq_some hp with ⟨slot, -, hget, -⟩
      exact ⟨_, rfl, hstep (hreachable.stored hget) hexchange hmotive⟩

end Engine

end PortLogic
