import PortLogic.Table.Loops

/-!
# PortLogic.Engine — the state of the scheduler

The engine owns the port table, the triggers that the next tick is to act on, and the notifications
that wait for the host. Its edits are in `Engine.Edit`, its tick in `Engine.Tick`.
-/

namespace PortLogic

/-- The settings of an engine. -/
structure EngineConfig where
  /-- The least number of milliseconds between two flushes of changed configurations. -/
  persistInterval : UInt64
deriving DecidableEq

namespace EngineConfig

/-- The settings that absent fields are taken from. -/
def initial : EngineConfig := ⟨5000⟩

end EngineConfig

/-- What the host is told. -/
inductive Notification where
  /-- A port has a new value. -/
  | valueChange (id : String) (value : Value)
  /-- A port was enabled, disabled or removed. -/
  | portUpdate (id : String)
deriving DecidableEq

/-- The state of the scheduler. -/
structure Engine (δ : Type) where
  config : EngineConfig
  table : Table δ
  /-- What the next tick acts on besides the changes it finds. -/
  forced : Triggers
  /-- The notifications that wait, oldest first. -/
  notifications : List Notification
  /-- The time of the last tick. -/
  now : Now
  /-- The wall-clock second of the last tick. -/
  lastSecond : Option Nat
  /-- The uptime of the last flush. -/
  lastFlush : Nat

namespace Engine

variable {δ : Type}

/-- An engine without ports. -/
def start (config : EngineConfig) : Engine δ where
  config
  table := Table.empty
  forced := Triggers.none
  notifications := []
  now := Now.start
  lastSecond := none
  lastFlush := 0

/-- Queues a notification. -/
def notify (e : Engine δ) (n : Notification) : Engine δ :=
  { e with notifications := e.notifications ++ [n] }

/-- Has the next tick act on a slot and on what the slot triggers. -/
def touchSlot (e : Engine δ) (slot : Nat) : Engine δ :=
  { e with forced := e.forced ∪ e.table.triggeredBy slot }

/-- Changes the port in a slot. -/
def modify (e : Engine δ) (slot : Nat) (f : Port δ → Port δ) : Engine δ :=
  { e with table := e.table.modify slot f }

/-- Computes again what triggers each live expression. -/
def refreshTriggers (e : Engine δ) : Engine δ :=
  { e with table := e.table.refreshTriggers }

/-! ## Queries -/

/-- The slot and the port with an identifier. -/
def entry? (e : Engine δ) (id : String) : Option (Nat × Port δ) :=
  (e.table.slotOf? id).bind fun slot => (e.table.get? slot).map (slot, ·)

/-- The configuration of a port. -/
def portConfig? (e : Engine δ) (id : String) : Option PortConfig :=
  (e.table.find? id).map Port.config

/-- The configurations of all ports in slot order. -/
def portConfigs (e : Engine δ) : List PortConfig :=
  e.table.ports.map Port.config

/-- The value of a port. -/
def value (e : Engine δ) (id : String) : Except Error Value :=
  match e.table.find? id with
  | some p => .ok p.value
  | none => .error (.notFound id)

end Engine

end PortLogic
