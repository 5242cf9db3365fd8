import PortLogic.Proofs.Reachable

/-!
# PortLogic.Proofs.Recorder — devices that keep a record

What an engine tells its devices is not part of its state. A recorder is a device with a record of
every number that was written to it and of whether the device accepted it. An engine never looks
into a device, so a run with recorders is, apart from the records, the run with the devices
themselves (`run_erase`): what holds of the records of all runs with recorders holds of what the
devices of all runs are told.
-/

namespace PortLogic

open Table

/-- A function of a case distinction, case by case. -/
theorem apply_ite_of_eq {α β : Type} {c : Prop} [Decidable c] (f : α → β) {x y : α} {x' y' : β}
    (hx : f x = x') (hy : f y = y') : f (if c then x else y) = if c then x' else y' := by
  rw [apply_ite f, hx, hy]

/-- A device with a record of what was written to it. -/
structure Recorder (δ : Type) where
  device : δ
  /-- The numbers written, oldest first, each with whether the device has accepted it. -/
  written : List (Number × Bool)

namespace Recorder

variable {δ : Type}

/-- A device with an empty record. -/
def fresh (device : δ) : Recorder δ := ⟨device, []⟩

/-- The numbers that the device has accepted, oldest first. -/
def accepted (r : Recorder δ) : List Number :=
  (r.written.filter (·.2)).map (·.1)

@[simp]
theorem map_device_fresh (driver : Option δ) : (driver.map fresh).map device = driver := by
  cases driver <;> rfl

instance [Driver δ] : Driver (Recorder δ) where
  read r now := (Driver.read r.device now).map id fun device => { r with device }
  write r x :=
    ((Driver.write r.device x).1,
      ⟨(Driver.write r.device x).2, r.written ++ [(x, (Driver.write r.device x).1.isOk)]⟩)

end Recorder

namespace Port

variable {δ : Type}

/-- The port with the device alone. -/
def erase (p : Port (Recorder δ)) : Port δ :=
  { p with driver := p.driver.map Recorder.device }

end Port

namespace Table

variable {δ : Type} {t : Table (Recorder δ)}

/-- The table with the devices alone. -/
def erase (t : Table (Recorder δ)) : Table δ :=
  ⟨t.slots.map (Option.map Port.erase)⟩

theorem erase_get? (t : Table (Recorder δ)) (slot : Nat) :
    t.erase.get? slot = (t.get? slot).map Port.erase := by
  unfold erase get?
  rw [List.getElem?_map]
  rcases t.slots[slot]? with _ | _ | p <;> rfl

theorem erase_slotOf? (t : Table (Recorder δ)) : t.erase.slotOf? = t.slotOf? := by
  funext id
  unfold erase slotOf?
  rw [List.findIdx?_map]
  refine congrArg (List.findIdx? · t.slots) ?_
  funext entry
  cases entry <;> rfl

theorem erase_find? (t : Table (Recorder δ)) (id : String) :
    t.erase.find? id = (t.find? id).map Port.erase := by
  unfold find?
  rw [erase_slotOf?]
  cases t.slotOf? id with
  | none => rfl
  | some slot => exact erase_get? t slot

theorem erase_ports (t : Table (Recorder δ)) : t.erase.ports = t.ports.map Port.erase := by
  unfold erase ports
  rw [List.filterMap_map, List.map_filterMap]
  rfl

theorem erase_entries (t : Table (Recorder δ)) :
    t.erase.entries = t.entries.map (Prod.map id Port.erase) := by
  unfold erase entries
  rw [List.zipIdx_map, List.filterMap_map, List.map_filterMap]
  refine congrArg (List.filterMap · t.slots.zipIdx) ?_
  funext ⟨entry, slot⟩
  cases entry <;> rfl

theorem erase_freeSlot? (t : Table (Recorder δ)) : t.erase.freeSlot? = t.freeSlot? := by
  have hfind : t.erase.slots.findIdx? Option.isNone = t.slots.findIdx? Option.isNone := by
    unfold erase
    rw [List.findIdx?_map]
    refine congrArg (List.findIdx? · t.slots) ?_
    funext entry
    cases entry <;> rfl
  unfold freeSlot?
  rw [hfind, show t.erase.slots.length = t.slots.length from List.length_map _]

theorem erase_insert (t : Table (Recorder δ)) (slot : Nat) (p : Port (Recorder δ)) :
    (t.insert slot p).erase = t.erase.insert slot p.erase := by
  unfold insert
  rw [show t.erase.slots.length = t.slots.length from List.length_map _]
  unfold erase
  split
  · simp
  · simp

theorem erase_free (t : Table (Recorder δ)) (slot : Nat) :
    (t.free slot).erase = t.erase.free slot := by
  have hnone : Option.isNone ∘ Option.map (Port.erase : Port (Recorder δ) → Port δ) =
      Option.isNone := by
    funext entry
    cases entry <;> rfl
  have hset : (t.slots.map (Option.map Port.erase)).set slot none =
      (t.slots.set slot none).map (Option.map Port.erase) := by
    rw [List.map_set, Option.map_none]
  unfold free erase
  rw [hset, ← List.map_reverse, List.dropWhile_map, hnone, ← List.map_reverse]

theorem erase_map {f : Port (Recorder δ) → Port (Recorder δ)} {g : Port δ → Port δ}
    (h : ∀ p, (f p).erase = g p.erase) : (t.map f).erase = t.erase.map g := by
  unfold map erase
  simp only [List.map_map]
  refine congrArg (fun f => (⟨t.slots.map f⟩ : Table δ)) ?_
  funext entry
  cases entry with
  | none => rfl
  | some p => exact congrArg some (h p)

theorem erase_modify (t : Table (Recorder δ)) (slot : Nat)
    {f : Port (Recorder δ) → Port (Recorder δ)} {g : Port δ → Port δ}
    (h : ∀ p, (f p).erase = g p.erase) :
    (t.modify slot f).erase = t.erase.modify slot g := by
  unfold modify erase
  refine congrArg Table.mk (List.ext_getElem? fun other => ?_)
  simp only [List.getElem?_map, List.getElem?_modify]
  rcases t.slots[other]? with _ | _ | p
  · rfl
  · split <;> rfl
  · split
    · exact congrArg (some ∘ some) (h p)
    · rfl

theorem erase_refreshTriggers (t : Table (Recorder δ)) :
    t.refreshTriggers.erase = t.erase.refreshTriggers := by
  unfold refreshTriggers
  rw [erase_slotOf?]
  exact erase_map fun p => rfl

theorem erase_source (t : Table (Recorder δ)) : t.erase.source = t.source := by
  funext id
  unfold source
  rw [erase_find?]
  cases t.find? id <;> rfl

theorem erase_triggeredBy (t : Table (Recorder δ)) (slot : Nat) :
    t.erase.triggeredBy slot = t.triggeredBy slot := by
  unfold triggeredBy
  rw [erase_entries, List.map_map]
  rfl

theorem erase_loopDepth (t : Table (Recorder δ)) (owner : String) (e : Expr) :
    t.erase.loopDepth owner e = t.loopDepth owner e := by
  have hreferences : t.erase.referencesOf = t.referencesOf := by
    funext id
    unfold referencesOf
    rw [erase_find?, Option.map_map]
    rfl
  unfold loopDepth
  rw [hreferences, erase_ports, List.map_map]
  rfl

end Table

/-- What is left of a sampling with the device alone. -/
def Sampling.erase {δ : Type} (s : Sampling (Recorder δ)) : Sampling δ :=
  ⟨s.port.erase, s.read, s.changed⟩

namespace Engine

variable {δ : Type} {e : Engine (Recorder δ)}

/-- The engine with the devices alone. -/
def erase (e : Engine (Recorder δ)) : Engine δ :=
  { e with table := e.table.erase }

/-- What is left of the outcome of an edit with the devices alone. -/
abbrev Edited.erase (outcome : Edited (Recorder δ)) : Edited δ :=
  outcome.map id Engine.erase

theorem entry?_erase (e : Engine (Recorder δ)) (name : String) :
    e.erase.entry? name = (e.entry? name).map (Prod.map id Port.erase) := by
  unfold entry?
  rw [show e.erase.table = e.table.erase from rfl, erase_slotOf?]
  cases e.table.slotOf? name with
  | none => rfl
  | some slot =>
    rw [Option.bind_some, Option.bind_some, erase_get?, Option.map_map, Option.map_map]
    rfl

theorem erase_touchSlot (e : Engine (Recorder δ)) (slot : Nat) :
    (e.touchSlot slot).erase = e.erase.touchSlot slot := by
  unfold touchSlot
  rw [show e.erase.table = e.table.erase from rfl, erase_triggeredBy]
  rfl

theorem erase_modifyPort (e : Engine (Recorder δ)) (slot : Nat)
    {f : Port (Recorder δ) → Port (Recorder δ)} {g : Port δ → Port δ}
    (h : ∀ p, (f p).erase = g p.erase) : (e.modify slot f).erase = e.erase.modify slot g :=
  congrArg (fun table : Table δ => { e.erase with table }) (erase_modify e.table slot h)

theorem erase_refresh (e : Engine (Recorder δ)) :
    e.refreshTriggers.erase = e.erase.refreshTriggers :=
  congrArg (fun table : Table δ => { e.erase with table }) (erase_refreshTriggers e.table)

theorem erase_readExpression (e : Engine (Recorder δ)) (name source : String) :
    e.erase.readExpression name source = e.readExpression name source := by
  unfold readExpression
  rw [show e.erase.table = e.table.erase from rfl]
  simp only [erase_loopDepth]

theorem erase_restoreExpression (e : Engine (Recorder δ)) (source : String)
    (p : Port (Recorder δ)) :
    (e.restoreExpression source p).erase = e.erase.restoreExpression source p.erase := by
  unfold restoreExpression
  refine apply_ite_of_eq Port.erase rfl ?_
  rw [erase_readExpression, show p.erase.id = p.id from rfl]
  cases e.readExpression p.id source <;> rfl

theorem erase_portOf (e : Engine (Recorder δ)) (config : PortConfig)
    (driver : Option (Recorder δ)) :
    (e.portOf config driver).erase = e.erase.portOf config (driver.map Recorder.device) :=
  erase_restoreExpression e _ _

theorem erase_addPort (e : Engine (Recorder δ)) (config : PortConfig)
    (driver : Option (Recorder δ)) :
    (e.addPort config driver).erase = e.erase.addPort config (driver.map Recorder.device) := by
  unfold addPort
  rw [show e.erase.table = e.table.erase from rfl, erase_find?, erase_freeSlot?, Option.isSome_map]
  refine apply_ite_of_eq Edited.erase rfl ?_
  refine apply_ite_of_eq Edited.erase rfl ?_
  cases e.table.freeSlot? with
  | none => rfl
  | some slot =>
    refine congrArg (Prod.mk _) ((erase_touchSlot _ slot).trans ?_)
    rw [← erase_portOf, ← erase_insert, ← erase_refreshTriggers]
    rfl

theorem erase_unregister (e : Engine (Recorder δ)) (name : String) :
    (e.unregister name).erase = e.erase.unregister name := by
  unfold unregister
  rw [entry?_erase]
  rcases e.entry? name with _ | ⟨slot, p⟩
  · rfl
  refine apply_ite_of_eq Edited.erase rfl ?_
  show _ = (_, Engine.notify { e.erase.touchSlot slot with
    table := ((e.erase.touchSlot slot).table.free slot).refreshTriggers } _)
  rw [← erase_touchSlot]
  show _ = (_, Engine.notify { (e.touchSlot slot).erase with
    table := ((e.touchSlot slot).table.erase.free slot).refreshTriggers } _)
  rw [← erase_free, ← erase_refreshTriggers]
  rfl

theorem erase_setExpression (e : Engine (Recorder δ)) (name source : String) :
    (e.setExpression name source).erase = e.erase.setExpression name source := by
  unfold setExpression
  rw [entry?_erase]
  rcases e.entry? name with _ | ⟨slot, p⟩
  · rfl
  refine apply_ite_of_eq Edited.erase rfl ?_
  have hassign {f : Port (Recorder δ) → Port (Recorder δ)} {g : Port δ → Port δ}
      (h : ∀ p, (f p).erase = g p.erase) :
      (((e.modify slot f).refreshTriggers).touchSlot slot).erase =
        ((e.erase.modify slot g).refreshTriggers).touchSlot slot := by
    rw [erase_touchSlot, erase_refresh, erase_modifyPort e slot h]
  refine apply_ite_of_eq Edited.erase ?_ ?_
  · exact congrArg (Prod.mk _) (hassign fun _ => rfl)
  · rw [erase_readExpression]
    cases e.readExpression name source with
    | error err => rfl
    | ok expr => exact congrArg (Prod.mk _) (hassign fun _ => rfl)

theorem erase_setTransform {set : Port (Recorder δ) → Option Expr → Port (Recorder δ)}
    {set' : Port δ → Option Expr → Port δ}
    (h : ∀ p transform, (set p transform).erase = set' p.erase transform)
    (e : Engine (Recorder δ)) (name source : String) :
    (setTransform set e name source).erase = setTransform set' e.erase name source := by
  unfold setTransform
  cases readTransformOf name source with
  | error err => rfl
  | ok transform =>
    rw [entry?_erase]
    rcases e.entry? name with _ | ⟨slot, p⟩
    · rfl
    · refine congrArg (Prod.mk _) (erase_modifyPort e slot fun _ => ?_)
      show _ = { set' p.erase transform with dirty := true }
      rw [← h]
      rfl

theorem erase_setFilter (e : Engine (Recorder δ)) (name : String) (kind : FilterKind)
    (width : Nat) : (e.setFilter name kind width).erase = e.erase.setFilter name kind width := by
  unfold setFilter
  refine apply_ite_of_eq Edited.erase rfl ?_
  rw [entry?_erase]
  rcases e.entry? name with _ | ⟨slot, p⟩
  · rfl
  refine apply_ite_of_eq Edited.erase ?_ ?_
  · exact congrArg (Prod.mk _) (erase_modifyPort e slot fun _ => rfl)
  refine apply_ite_of_eq Edited.erase ?_ ?_
  · refine congrArg (fun e : Engine δ => (_, e.notify _)) ((erase_touchSlot _ slot).trans ?_)
    exact congrArg (touchSlot · slot) (erase_modifyPort e slot fun _ => rfl)
  · exact congrArg (Prod.mk _) (erase_modifyPort e slot fun _ => rfl)

theorem erase_enable (e : Engine (Recorder δ)) (name : String) :
    (e.enable name).erase = e.erase.enable name := by
  unfold enable
  rw [entry?_erase]
  rcases e.entry? name with _ | ⟨slot, p⟩
  · rfl
  refine apply_ite_of_eq Edited.erase rfl ?_
  have hrevive {f : Port (Recorder δ) → Port (Recorder δ)} {g : Port δ → Port δ}
      (h : ∀ p, (f p).erase = g p.erase) :
      ((((e.modify slot f).refreshTriggers).touchSlot slot).notify (.portUpdate name)).erase =
        (((e.erase.modify slot g).refreshTriggers).touchSlot slot).notify (.portUpdate name) := by
    rw [← erase_modifyPort e slot h, ← erase_refresh, ← erase_touchSlot]
    rfl
  refine apply_ite_of_eq Edited.erase ?_ ?_
  · exact congrArg (Prod.mk _) (hrevive fun _ => rfl)
  · rw [erase_readExpression, show p.erase.expression = p.expression from rfl]
    cases e.readExpression name p.expression with
    | error err => rfl
    | ok expr => exact congrArg (Prod.mk _) (hrevive fun _ => rfl)

theorem erase_disable (e : Engine (Recorder δ)) (name : String) :
    (e.disable name).erase = e.erase.disable name := by
  unfold disable
  rw [entry?_erase]
  rcases e.entry? name with _ | ⟨slot, p⟩
  · rfl
  refine apply_ite_of_eq Edited.erase rfl ?_
  refine congrArg (fun e : Engine δ => (_, e.notify _)) ((erase_touchSlot _ slot).trans ?_)
  exact congrArg (touchSlot · slot) (erase_modifyPort e slot fun _ => rfl)

theorem erase_touch (e : Engine (Recorder δ)) (name : String) :
    (e.touch name).erase = e.erase.touch name := by
  unfold touch
  rw [show e.erase.table = e.table.erase from rfl, erase_slotOf?]
  cases e.table.slotOf? name with
  | none => rfl
  | some slot => exact congrArg (Prod.mk _) (erase_touchSlot e slot)

/-! ## Values -/

variable [Driver δ]

theorem erase_write [Power] (p : Port (Recorder δ)) (x : Number) (now : Now) :
    (p.write x now).map id Port.erase = p.erase.write x now := by
  unfold Port.write
  rw [show p.erase.outgoing x now = p.outgoing x now from rfl]
  rcases p.outgoing x now with ⟨_ | y, transform⟩
  · rfl
  · simp only
    unfold Port.drive
    rcases p with ⟨⟩
    next driver => cases driver <;> rfl

theorem erase_commit [Power] (e : Engine (Recorder δ)) (slot : Nat) (p : Port (Recorder δ))
    (x : Number) (reason : ChangeReason) :
    (e.commit slot p x reason).map id erase = e.erase.commit slot p.erase x reason := by
  unfold commit
  rw [show e.erase.now = e.now from rfl, ← erase_write]
  rcases p.write x e.now with ⟨err | ⟨⟨⟩⟩, next⟩
  · exact congrArg (Prod.mk _) (erase_modifyPort e slot fun _ => rfl)
  · exact congrArg (fun e : Engine δ => (_, e.notify _)) (erase_modifyPort e slot fun _ => rfl)

theorem erase_setValue [Power] (e : Engine (Recorder δ)) (name : String) (x : Number) :
    (e.setValue name x).erase = e.erase.setValue name x := by
  unfold setValue
  rw [entry?_erase]
  rcases e.entry? name with _ | ⟨slot, p⟩
  · rfl
  refine apply_ite_of_eq Edited.erase rfl ?_
  refine apply_ite_of_eq Edited.erase rfl ?_
  have hnormalize : p.erase.normalize = p.normalize := rfl
  simp only [id]
  rw [hnormalize]
  cases p.normalize x with
  | none => rfl
  | some fitted => exact erase_commit e slot p fitted .native

omit [Driver δ] in
theorem erase_takeDirtyConfigs (e : Engine (Recorder δ)) (now : Now) (force : Bool) :
    (e.takeDirtyConfigs now force).map id erase = e.erase.takeDirtyConfigs now force := by
  unfold takeDirtyConfigs
  refine apply_ite_of_eq (Prod.map id erase) rfl ?_
  rw [show e.erase.table = e.table.erase from rfl, erase_ports, List.filter_map, List.map_map]
  refine congrArg (Prod.mk _) ?_
  have htable := erase_map (t := e.table) (f := fun p => { p with dirty := false })
    (g := fun p => { p with dirty := false }) fun _ => rfl
  exact congrArg (fun table : Table δ => { e.erase with lastFlush := now.uptime, table }) htable

/-! ## Ticks -/

omit [Driver δ] in
theorem erase_acceptSample (p : Port (Recorder δ)) (x : Number) :
    (p.acceptSample x).erase = p.erase.acceptSample x :=
  apply_ite Sampling.erase _ _ _

omit [Driver δ] in
theorem erase_takeSample [Power] (p : Port (Recorder δ)) (raw : Number) (now : Now) :
    (p.takeSample raw now).erase = p.erase.takeSample raw now := by
  unfold Port.takeSample
  rw [show p.erase.incoming raw now = p.incoming raw now from rfl]
  rcases p.incoming raw now with ⟨_ | x, transform⟩
  · rfl
  simp only
  have hpush : p.erase.filter.push x (p.erase.kind = .boolean) transform =
      p.filter.push x (p.kind = .boolean) transform := rfl
  rw [hpush]
  rcases p.filter.push x (p.kind = .boolean) transform with ⟨filtered, filter⟩
  simp only
  have hnormalize : Port.normalize { p.erase with readTransform := transform, filter } =
      Port.normalize { p with readTransform := transform, filter } := rfl
  rw [hnormalize]
  cases filtered.bind (Port.normalize { p with readTransform := transform, filter }) with
  | none => rfl
  | some y => exact erase_acceptSample _ y

theorem erase_sample [Power] (p : Port (Recorder δ)) (now : Now) :
    (p.sample now).erase = p.erase.sample now := by
  unfold Port.sample
  refine apply_ite_of_eq Sampling.erase ?_ rfl
  have hdriver : p.erase.driver = p.driver.map Recorder.device := rfl
  simp only
  rw [hdriver]
  cases p.driver with
  | none => rfl
  | some recorder =>
    have hread : Driver.read recorder now = (Driver.read recorder.device now).map id fun device =>
      { recorder with device } := rfl
    rw [Option.map_some]
    simp only
    rw [hread]
    rcases Driver.read recorder.device now with ⟨raw, device⟩
    simp only [Prod.map, id]
    cases raw.bind Number.finite? with
    | none => rfl
    | some x => exact erase_takeSample _ x now

theorem erase_sampleAll [Power] (e : Engine (Recorder δ)) (now : Now) :
    (e.sample now).map id (Prod.map id erase) = e.erase.sample now := by
  have hsamplings : (e.table.entries.map (Prod.map id Port.erase)).map
        (fun entry => (entry.1, entry.2.sample now)) =
      (e.table.entries.map fun entry => (entry.1, entry.2.sample now)).map
        (Prod.map id Sampling.erase) := by
    rw [List.map_map, List.map_map]
    refine List.map_congr_left fun entry _ => ?_
    exact congrArg (Prod.mk entry.1) (erase_sample entry.2 now).symm
  have htable : (e.table.map fun p => (p.sample now).port).erase =
      e.table.erase.map fun p => (p.sample now).port :=
    erase_map fun p => congrArg Sampling.port (erase_sample p now)
  unfold sample
  rw [show e.erase.table = e.table.erase from rfl, erase_entries]
  simp only
  rw [hsamplings, ← htable]
  simp only [List.filter_map, List.map_map]
  rfl

omit [Driver δ] in
/-- A condition that does not look at the device holds in the same slots. -/
theorem erase_slotsWhere (t : Table (Recorder δ)) {condition : Port δ → Bool}
    {recorded : Port (Recorder δ) → Bool} (h : ∀ p, condition p.erase = recorded p) :
    t.erase.slotsWhere condition = t.slotsWhere recorded := by
  have hentry : (fun entry : Nat × Port δ => condition entry.2) ∘ Prod.map id Port.erase =
      fun entry => recorded entry.2 := by
    funext entry
    exact h entry.2
  unfold slotsWhere
  rw [erase_entries, List.filter_map, List.map_map, hentry]
  rfl

omit [Driver δ] in
theorem erase_detect (e : Engine (Recorder δ)) :
    e.detect.map id (Prod.map id erase) = e.erase.detect := by
  have htable : (e.table.map Port.acknowledge).erase = e.table.erase.map Port.acknowledge :=
    erase_map fun p => apply_ite Port.erase _ _ _
  have hchanged : e.table.erase.slotsWhere Port.hasChanged = e.table.slotsWhere Port.hasChanged :=
    erase_slotsWhere e.table fun _ => rfl
  have hcaused : e.table.erase.slotsWhere (fun p => p.hasChanged && p.reason = .expression) =
      e.table.slotsWhere fun p => p.hasChanged && p.reason = .expression :=
    erase_slotsWhere e.table fun _ => rfl
  unfold detect
  rw [show e.erase.table = e.table.erase from rfl, hchanged, hcaused, ← htable]
  rfl

/-- What an evaluation does with the value of the expression. -/
def offer [Power] (e : Engine δ) (slot : Nat) (p : Port δ) (value : Value) : Bool × Engine δ :=
  match value.bind p.normalize with
  | none => (false, e)
  | some x =>
    if p.value == some x then (false, e)
    else
      match e.commit slot p x .expression with
      | (.ok (), next) => (true, next)
      | (.error _, next) => (false, next)

theorem evaluateLive_eq_offer [Power] (e : Engine δ) (slot : Nat) (p : Port δ) (expr : Expr)
    (now : Now) : e.evaluateLive slot p expr now =
      (e.modify slot fun _ =>
        { p with live := some (expr.eval ⟨e.table.source, now⟩).next }).offer slot
          { p with live := some (expr.eval ⟨e.table.source, now⟩).next }
          (expr.eval ⟨e.table.source, now⟩).value := rfl

theorem erase_offer [Power] (e : Engine (Recorder δ)) (slot : Nat) (p : Port (Recorder δ))
    (value : Value) : (e.offer slot p value).map id erase = e.erase.offer slot p.erase value := by
  unfold offer
  rw [show p.erase.normalize = p.normalize from rfl]
  cases value.bind p.normalize with
  | none => rfl
  | some x =>
    refine apply_ite_of_eq (Prod.map id erase) rfl ?_
    rw [← erase_commit]
    rcases commit e slot p x .expression with ⟨err | ⟨⟨⟩⟩, next⟩
    · rfl
    · rfl

theorem erase_evaluateLive [Power] (e : Engine (Recorder δ)) (slot : Nat) (p : Port (Recorder δ))
    (expr : Expr) (now : Now) :
    (e.evaluateLive slot p expr now).map id erase = e.erase.evaluateLive slot p.erase expr now := by
  rw [evaluateLive_eq_offer, evaluateLive_eq_offer, erase_offer,
    show e.erase.table = e.table.erase from rfl, erase_source]
  exact congrArg (offer · slot _ _) (erase_modifyPort e slot fun _ => rfl)

/-- What is left of the middle of an evaluation with the devices alone. -/
def Progress.erase (s : Progress (Recorder δ)) : Progress δ :=
  ⟨s.engine.erase, s.evaluated, s.committed⟩

theorem erase_evaluateSlot [Power] (mask selfCaused : Triggers) (now : Now)
    (s : Progress (Recorder δ)) (slot : Nat) : (evaluateSlot mask selfCaused now s slot).erase =
      evaluateSlot mask selfCaused now s.erase slot := by
  unfold evaluateSlot
  rw [show s.erase.engine.table.get? slot = (s.engine.table.get? slot).map Port.erase from
    erase_get? s.engine.table slot]
  cases s.engine.table.get? slot with
  | none => rfl
  | some p =>
    have hlive : p.erase.live = p.live := rfl
    rw [Option.map_some]
    simp only
    rw [hlive]
    cases p.live with
    | none => rfl
    | some expr =>
      refine apply_ite_of_eq Progress.erase ?_ rfl
      show _ = Progress.mk (s.engine.erase.evaluateLive slot p.erase expr now).2 _
        (_ ++ if (s.engine.erase.evaluateLive slot p.erase expr now).1 then [slot] else [])
      rw [← erase_evaluateLive]
      rfl

theorem erase_evaluate [Power] (e : Engine (Recorder δ)) (mask selfCaused : Triggers) (now : Now) :
    (e.evaluate mask selfCaused now).erase = e.erase.evaluate mask selfCaused now := by
  have hlength : e.erase.table.slots.length = e.table.slots.length := List.length_map _
  unfold evaluate
  rw [hlength]
  exact (List.foldl_hom Progress.erase
    fun s slot => (erase_evaluateSlot mask selfCaused now s slot).symm).symm

theorem erase_tick [Power] (e : Engine (Recorder δ)) (now : Now) :
    (e.tick now).map id erase = e.erase.tick now := by
  unfold tick
  rw [show e.erase.clock now = (e.clock now).map id erase from rfl]
  rcases e.clock now with ⟨clock, ticked⟩
  simp only [Prod.map]
  rw [← erase_sampleAll]
  rcases ticked.sample now with ⟨sampled, changed, sampledEngine⟩
  simp only [Prod.map]
  rw [← erase_detect]
  rcases sampledEngine.detect with ⟨detected, selfCaused, ready⟩
  exact congrArg (fun done : Progress δ =>
      (TickReport.mk sampled done.evaluated (changed ++ done.committed), done.engine))
    (erase_evaluate { ready with forced := Triggers.none } _ selfCaused now)

/-! ## Runs -/

/-- An operation on a device with a record: a new device has an empty one, and the world acts on
the device alone. -/
def Operation.recorded : Operation δ → Operation (Recorder δ)
  | .addPort config driver => .addPort config (driver.map Recorder.fresh)
  | .unregister name => .unregister name
  | .setValue name x => .setValue name x
  | .setExpression name source => .setExpression name source
  | .setReadTransform name source => .setReadTransform name source
  | .setWriteTransform name source => .setWriteTransform name source
  | .setFilter name kind width => .setFilter name kind width
  | .enable name => .enable name
  | .disable name => .disable name
  | .touch name => .touch name
  | .tick now => .tick now
  | .takeNotifications => .takeNotifications
  | .takeDirtyConfigs now force => .takeDirtyConfigs now force
  | .adjustDriver name f => .adjustDriver name fun r => { r with device := f r.device }

/-- Devices with a record get the same replies as the devices alone. -/
theorem erase_perform [Power] (e : Engine (Recorder δ)) (operation : Operation δ) :
    (e.perform operation.recorded).map id erase = e.erase.perform operation := by
  have hedited {outcome : Edited (Recorder δ)} {outcome' : Edited δ}
      (h : outcome.erase = outcome') :
      (outcome.map Reply.edited id).map id erase = outcome'.map Reply.edited id := by
    rw [← h]
    rfl
  cases operation with
  | addPort config driver =>
    refine hedited ((erase_addPort e config _).trans ?_)
    exact congrArg (e.erase.addPort config) (Recorder.map_device_fresh driver)
  | unregister name => exact hedited (erase_unregister e name)
  | setValue name x => exact hedited (erase_setValue e name x)
  | setExpression name source => exact hedited (erase_setExpression e name source)
  | setReadTransform name source =>
    exact hedited (erase_setTransform (fun _ _ => rfl) e name source)
  | setWriteTransform name source =>
    exact hedited (erase_setTransform (fun _ _ => rfl) e name source)
  | setFilter name kind width => exact hedited (erase_setFilter e name kind width)
  | enable name => exact hedited (erase_enable e name)
  | disable name => exact hedited (erase_disable e name)
  | touch name => exact hedited (erase_touch e name)
  | tick now => exact congrArg (Prod.map Reply.ticked id) (erase_tick e now)
  | takeNotifications => rfl
  | takeDirtyConfigs now force =>
    exact congrArg (Prod.map Reply.flushed id) (erase_takeDirtyConfigs e now force)
  | adjustDriver name f =>
    show (Reply.adjusted, (e.adjustDriver name _).erase) = (_, e.erase.adjustDriver name f)
    unfold adjustDriver
    rw [show e.erase.table = e.table.erase from rfl, erase_slotOf?]
    cases e.table.slotOf? name with
    | none => rfl
    | some slot =>
      refine congrArg (Prod.mk _) (erase_modifyPort e slot fun p => ?_)
      rcases p with ⟨⟩
      next driver => cases driver <;> rfl

/-- A run with records is, apart from the records, the run with the devices alone. -/
theorem erase_run [Power] (e : Engine (Recorder δ)) (operations : List (Operation δ)) :
    (e.run (operations.map Operation.recorded)).erase = e.erase.run operations := by
  induction operations generalizing e with
  | nil => rfl
  | cons operation rest ih =>
    have hperform := congrArg Prod.snd (erase_perform e operation)
    refine (ih _).trans ?_
    exact congrArg (Engine.run · rest) hperform

end Engine

end PortLogic
