import PortLogic.Engine.Edit
import PortLogic.Engine.Tick

/-!
# PortLogic.Engine.Run — everything that can happen to an engine

The queues that the host drains, and one type of all operations with the reply to each. A state is
*reachable* when operations lead to it from an engine without ports.
-/

namespace PortLogic

namespace Engine

variable {δ : Type}

/-- Drains the notifications. -/
def takeNotifications (e : Engine δ) : List Notification × Engine δ :=
  (e.notifications, { e with notifications := [] })

/-- Whether a flush has to wait for the interval to pass. -/
def mustWait (e : Engine δ) (now : Now) (force : Bool) : Bool :=
  !force && decide (now.uptime - e.lastFlush < e.config.persistInterval.toNat)

/-- Drains the configurations with changes to store. Without force they wait until the interval
since the last flush has passed. -/
def takeDirtyConfigs (e : Engine δ) (now : Now) (force : Bool) : List PortConfig × Engine δ :=
  if e.mustWait now force then ([], e)
  else
    ((e.table.ports.filter Port.dirty).map Port.config,
      { e with
        lastFlush := now.uptime
        table := e.table.map fun p => { p with dirty := false } })

/-- What can happen to an engine. -/
inductive Operation (δ : Type) where
  | addPort (config : PortConfig) (driver : Option δ)
  | unregister (id : String)
  | setValue (id : String) (x : Number)
  | setExpression (id source : String)
  | setReadTransform (id source : String)
  | setWriteTransform (id source : String)
  | setFilter (id : String) (kind : FilterKind) (width : Nat)
  | enable (id : String)
  | disable (id : String)
  | touch (id : String)
  | tick (now : Now)
  | takeNotifications
  | takeDirtyConfigs (now : Now) (force : Bool)
  /-- The world acts on the driver of a port. -/
  | adjustDriver (id : String) (f : δ → δ)

/-- The reply to an operation. -/
inductive Reply where
  | edited (result : Except Error Unit)
  | ticked (report : TickReport)
  | notified (notifications : List Notification)
  | flushed (configs : List PortConfig)
  | adjusted

variable [Driver δ] [Power]

/-- Performs an operation. -/
def perform (e : Engine δ) : Operation δ → Reply × Engine δ
  | .addPort config driver => (e.addPort config driver).map .edited id
  | .unregister name => (e.unregister name).map .edited id
  | .setValue name x => (e.setValue name x).map .edited id
  | .setExpression name source => (e.setExpression name source).map .edited id
  | .setReadTransform name source => (e.setReadTransform name source).map .edited id
  | .setWriteTransform name source => (e.setWriteTransform name source).map .edited id
  | .setFilter name kind width => (e.setFilter name kind width).map .edited id
  | .enable name => (e.enable name).map .edited id
  | .disable name => (e.disable name).map .edited id
  | .touch name => (e.touch name).map .edited id
  | .tick now => (e.tick now).map .ticked id
  | .takeNotifications => e.takeNotifications.map .notified id
  | .takeDirtyConfigs now force => (e.takeDirtyConfigs now force).map .flushed id
  | .adjustDriver name f => (.adjusted, e.adjustDriver name f)

/-- The engine after a list of operations. -/
def run (e : Engine δ) (operations : List (Operation δ)) : Engine δ :=
  operations.foldl (fun e operation => (e.perform operation).2) e

/-- Operations lead to the engine from one without ports. -/
def Reachable (e : Engine δ) : Prop :=
  ∃ config operations, e = (start config).run operations

end Engine

end PortLogic
