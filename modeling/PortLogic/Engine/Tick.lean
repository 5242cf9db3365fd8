import PortLogic.Engine.Commit

/-!
# PortLogic.Engine.Tick — one step of the scheduler

1. **Sampling**: every input that is due is read, transformed, filtered and fitted.
2. **Change detection**: the slots of enabled ports whose value differs from the one detected
   before, together with those of them that have their own expression on record as the reason.
3. **Evaluation**: in slot order, the live expressions that any trigger of the tick concerns. A
   port with such a change is passed over when it references itself.
-/

namespace PortLogic

/-- The slots that a tick sampled through a driver, evaluated, and committed a value of. -/
structure TickReport where
  sampled : List Nat
  evaluated : List Nat
  committed : List Nat
deriving DecidableEq

/-- What sampling a port yields. -/
structure Sampling (δ : Type) where
  port : Port δ
  /-- Whether the driver was read. -/
  read : Bool
  /-- Whether the value changed. -/
  changed : Bool

namespace Port

variable {δ : Type}

/-- Whether the port is an enabled input whose sampling interval has passed. -/
def isDue (p : Port δ) (now : Now) : Bool :=
  p.enabled && !p.output &&
    !p.sampledAt.any fun last => now.uptime - last < p.samplingInterval.toNat

variable [Power]

/-- What the read transform makes of a raw sample, and the transform with its memories advanced. -/
def incoming (p : Port δ) (raw : Number) (now : Now) : Value × Option Expr :=
  match p.readTransform with
  | none => (some raw, none)
  | some transform =>
    let outcome := transform.eval ⟨Source.own p.id raw, now⟩
    (outcome.value, some outcome.next)

/-- The port with a sampled value, and whether that changes its value. -/
def acceptSample (p : Port δ) (x : Number) : Sampling δ :=
  if p.value == some x then ⟨{ p with lastRead := some x }, true, false⟩
  else
    ⟨{ p with
        value := some x
        lastRead := some x
        reason := .native
        dirty := p.dirty || p.persisted }, true, true⟩

/-- Takes a raw sample through the transform, the filter and the fitting of the port. -/
def takeSample (p : Port δ) (raw : Number) (now : Now) : Sampling δ :=
  let (transformed, transform) := p.incoming raw now
  let p := { p with readTransform := transform }
  match transformed with
  | none => ⟨p, true, false⟩
  | some x =>
    let (filtered, filter) := p.filter.push x (p.kind = .boolean) p.readTransform
    let p := { p with filter }
    match filtered.bind p.normalize with
    | none => ⟨p, true, false⟩
    | some y => p.acceptSample y

/-- Samples the port when it is due. -/
def sample [Driver δ] (p : Port δ) (now : Now) : Sampling δ :=
  if p.isDue now then
    let p := { p with sampledAt := some now.uptime }
    match p.driver with
    | none => ⟨p, false, false⟩
    | some driver =>
      let (raw, next) := Driver.read driver now
      let p := { p with driver := some next }
      match raw.bind Number.finite? with
      | none => ⟨p, true, false⟩
      | some x => p.takeSample x now
  else
    ⟨p, false, false⟩

/-- Whether the value differs from the one detected before. -/
def hasChanged (p : Port δ) : Bool :=
  p.enabled && !(p.value == p.detected)

/-- The port once its change has been detected. -/
def acknowledge (p : Port δ) : Port δ :=
  if p.hasChanged then { p with reason := .native, detected := p.value } else p

/-- Whether a trigger of the tick concerns the port in a slot. -/
def isTriggered (p : Port δ) (slot : Nat) (mask selfCaused : Triggers) : Bool :=
  let own := Triggers.only slot
  !(mask.contains slot && selfCaused.contains slot && p.triggers.contains slot) &&
    mask.meets (p.triggers ∪ own)

end Port

namespace Table

variable {δ : Type}

/-- The slots of the entries that satisfy a condition. -/
def slotsWhere (t : Table δ) (condition : Port δ → Bool) : List Nat :=
  (t.entries.filter fun entry => condition entry.2).map (·.1)

/-- The triggers of a list of slots. -/
def triggersOf (slots : List Nat) : Triggers :=
  Triggers.unionAll (slots.map Triggers.only)

end Table

namespace Engine

variable {δ : Type}

/-- The triggers of the clock, with the second of this tick noted. -/
def clock (e : Engine δ) (now : Now) : Triggers × Engine δ :=
  let triggers :=
    Triggers.millisecond ∪ Triggers.when (now.second ≠ e.lastSecond) Triggers.second
  (triggers, { e with now, lastSecond := now.second })

/-- Detects changes: the changed slots, and those with their own expression on record as the reason.
-/
def detect (e : Engine δ) : Triggers × Triggers × Engine δ :=
  let changed := Table.triggersOf (e.table.slotsWhere Port.hasChanged)
  let selfCaused := Table.triggersOf
    (e.table.slotsWhere fun p => p.hasChanged && p.reason = .expression)
  (changed, selfCaused, { e with table := e.table.map Port.acknowledge })

variable [Driver δ] [Power]

/-- Samples every input that is due: the slots read, the slots with a new value. -/
def sample (e : Engine δ) (now : Now) : List Nat × List Nat × Engine δ :=
  let samplings := e.table.entries.map fun (slot, p) => (slot, p.sample now)
  let changed := samplings.filter fun (_, s) => s.changed
  (((samplings.filter fun (_, s) => s.read).map (·.1)), changed.map (·.1),
    { e with
      table := e.table.map fun p => (p.sample now).port
      notifications := e.notifications ++
        changed.map fun (_, s) => .valueChange s.port.id s.port.value })

/-- Evaluates a live expression and commits a new value: the engine after it, and whether a value
was committed. -/
def evaluateLive (e : Engine δ) (slot : Nat) (p : Port δ) (expr : Expr) (now : Now) :
    Bool × Engine δ :=
  let outcome := expr.eval ⟨e.table.source, now⟩
  let p := { p with live := some outcome.next }
  let e := e.modify slot fun _ => p
  match outcome.value.bind p.normalize with
  | none => (false, e)
  | some x =>
    if p.value == some x then (false, e)
    else
      match e.commit slot p x .expression with
      | (.ok (), next) => (true, next)
      | (.error _, next) => (false, next)

/-- The engine in the middle of evaluation, with the slots evaluated and committed so far. -/
structure Progress (δ : Type) where
  engine : Engine δ
  evaluated : List Nat
  committed : List Nat

/-- Evaluates the port in a slot when a trigger concerns it. -/
def evaluateSlot (mask selfCaused : Triggers) (now : Now) (s : Progress δ) (slot : Nat) :
    Progress δ :=
  match s.engine.table.get? slot with
  | none => s
  | some p =>
    match p.live with
    | none => s
    | some expr =>
      if p.enabled && p.output && p.isTriggered slot mask selfCaused then
        let (committed, engine) := s.engine.evaluateLive slot p expr now
        ⟨engine, s.evaluated ++ [slot], s.committed ++ if committed then [slot] else []⟩
      else s

/-- Evaluates every slot in order. -/
def evaluate (e : Engine δ) (mask selfCaused : Triggers) (now : Now) : Progress δ :=
  (List.range e.table.slots.length).foldl (evaluateSlot mask selfCaused now) ⟨e, [], []⟩

/-- Runs one step of the scheduler. -/
def tick (e : Engine δ) (now : Now) : TickReport × Engine δ :=
  let (clock, e) := e.clock now
  let (sampled, changedInputs, e) := e.sample now
  let (changed, selfCaused, e) := e.detect
  let mask := clock ∪ changed ∪ e.forced
  let done := { e with forced := Triggers.none }.evaluate mask selfCaused now
  (⟨sampled, done.evaluated, changedInputs ++ done.committed⟩, done.engine)

end Engine

end PortLogic
