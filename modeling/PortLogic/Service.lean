import PortLogic.Engine.Run
import PortLogic.Service.Config
import PortLogic.Service.Error
import PortLogic.Storage.State

/-!
# PortLogic.Service — an engine that serves requests and saves its state

A service ticks its engine, answers requests between the ticks, hands on notifications as events,
and saves the configurations that changed. It saves once more when it stops.
-/

namespace PortLogic

/-- The state of a service. -/
structure Service (δ : Type) where
  config : ServiceConfig
  engine : Engine δ
  /-- The configurations last taken for saving, of every port. -/
  taken : List PortConfig
  /-- The events that wait, oldest first. -/
  events : List Notification
  folder : Folder
  /-- How the service ended, once it has stopped. -/
  outcome : Option (Except ServiceError Unit)

namespace Service

variable {δ : Type}

/-- A service for an engine with its ports. -/
def start (config : ServiceConfig) (engine : Engine δ) (folder : Folder) : Service δ :=
  ⟨config, engine, engine.portConfigs, [], folder, none⟩

/-- Registers ports in order; those that are rejected are skipped. -/
def register (engine : Engine δ) (ports : List (PortConfig × Option δ)) : Engine δ :=
  ports.foldl (fun engine port => (engine.addPort port.1 port.2).2) engine

/-- A service with ports. -/
def withPorts (config : ServiceConfig) (ports : List (PortConfig × Option δ)) (folder : Folder) :
    Service δ :=
  start config (register (Engine.start config.engine) ports) folder

/-! ## Events -/

/-- Hands on the notifications of the engine as far as events may wait; the others are lost. -/
def forward (s : Service δ) : Service δ :=
  let (notifications, engine) := s.engine.takeNotifications
  let room := s.config.capacity - s.events.length
  { s with engine, events := s.events ++ notifications.take room }

/-- Drains the events. -/
def takeEvents (s : Service δ) : List Notification × Service δ :=
  (s.events, { s with events := [] })

/-! ## Saving -/

/-- Replaces the configuration with the same identifier, or adds one. -/
def merge (configs : List PortConfig) (config : PortConfig) : List PortConfig :=
  match configs.findIdx? fun other => other.id = config.id with
  | some index => configs.set index config
  | none => configs ++ [config]

/-- Saves the configurations when some have changed. -/
def persist [JsonFormat] (s : Service δ) (now : Now) (force : Bool) :
    Except StorageFault Unit × Service δ :=
  let (changed, engine) := s.engine.takeDirtyConfigs now force
  let taken := changed.foldl merge s.taken
  let s := { s with engine, taken }
  if changed = [] ∨ s.config.statePath = none then (.ok (), s)
  else
    let (result, folder) := s.folder.saveState taken
    (result, { s with folder })

/-! ## Running -/

/-- What a service is asked. -/
inductive Request where
  | setValue (id : String) (x : Number)
  | setExpression (id source : String)
  | enable (id : String)
  | disable (id : String)
  | value (id : String)

/-- What a service answers. -/
inductive Answer where
  | done
  | value (value : Value)

variable [Driver δ] [Power] [JsonFormat]

/-- Has the engine serve a request. -/
def serve (engine : Engine δ) : Request → Except Error Answer × Engine δ
  | .setValue id x => (engine.setValue id x).map (·.map fun _ => .done) fun e => e
  | .setExpression id source =>
    (engine.setExpression id source).map (·.map fun _ => .done) fun e => e
  | .enable id => (engine.enable id).map (·.map fun _ => .done) fun e => e
  | .disable id => (engine.disable id).map (·.map fun _ => .done) fun e => e
  | .value id => ((engine.value id).map .value, engine)

/-- Serves a request, unless the service has stopped. -/
def request (s : Service δ) (r : Request) : Except ServiceError Answer × Service δ :=
  if s.outcome.isSome then (.error .stopped, s)
  else
    let (result, engine) := serve s.engine r
    (result.mapError .engine, { s with engine }.forward)

/-- Ticks the engine and saves what changed, unless the service has stopped. That a save fails does
not stop the service. -/
def tick (s : Service δ) (now : Now) : Service δ :=
  if s.outcome.isSome then s
  else
    let (_, engine) := s.engine.tick now
    ({ s with engine }.forward.persist now false).2

/-- Stops the service after a last save. A stopped service repeats how it ended. -/
def stop (s : Service δ) (now : Now) : Except ServiceError Unit × Service δ :=
  match s.outcome with
  | some outcome => (outcome, s)
  | none =>
    let (saved, s) := s.persist now true
    let outcome := saved.mapError .storage
    (outcome, { s with outcome := some outcome })

/-- What can happen to a service. -/
inductive Operation where
  | tick (now : Now)
  | request (r : Request)
  | takeEvents
  | stop (now : Now)
  /-- The folder begins or ceases to accept files. -/
  | setWritable (writable : Bool)

/-- Performs an operation. -/
def perform (s : Service δ) : Operation → Service δ
  | .tick now => s.tick now
  | .request r => (s.request r).2
  | .takeEvents => s.takeEvents.2
  | .stop now => (s.stop now).2
  | .setWritable writable => { s with folder := { s.folder with writable } }

/-- The service after a list of operations. -/
def run (s : Service δ) (operations : List Operation) : Service δ :=
  operations.foldl perform s

end Service

end PortLogic
