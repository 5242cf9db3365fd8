import PortLogic.Engine.Encoding
import PortLogic.Storage

/-!
# PortLogic.Service.Config — the settings of a service

The settings name the state file and say how often the scheduler ticks and how many events may
wait. They are stored as a JSON record of which every field may be absent.
-/

namespace PortLogic

/-- The settings of a service. -/
structure ServiceConfig where
  /-- Milliseconds between two ticks. -/
  tickInterval : UInt64
  /-- Where the state is saved; without a path it is not. -/
  statePath : Option String
  /-- How many events may wait. -/
  eventBuffer : UInt64
  engine : EngineConfig
deriving DecidableEq

namespace ServiceConfig

/-- The settings that absent fields are taken from. -/
def initial : ServiceConfig where
  tickInterval := 100
  statePath := none
  eventBuffer := 64
  engine := EngineConfig.initial

/-- Reads settings. -/
def ofJson? (j : Json) : Option ServiceConfig := do
  let fields ← j.fields? ["tick_interval_ms", "state_path", "event_buffer", "core"]
  return {
    tickInterval := ← fields.read? "tick_interval_ms" Json.toUInt64? initial.tickInterval
    statePath := ← fields.read? "state_path" (Json.toOption? Json.toText?) initial.statePath
    eventBuffer := ← fields.read? "event_buffer" Json.toUInt64? initial.eventBuffer
    engine := ← fields.read? "core" EngineConfig.ofJson? initial.engine }

/-- Writes settings; an absent path is left out. -/
def toJson (c : ServiceConfig) : Json :=
  .record <|
    [("tick_interval_ms", .ofUInt64 c.tickInterval)] ++
    (c.statePath.map fun path => ("state_path", Json.text path)).toList ++
    [("event_buffer", .ofUInt64 c.eventBuffer), ("core", c.engine.toJson)]

/-- Reads settings from a document. -/
def ofDocument [JsonFormat] (d : Document) : Except StorageFault ServiceConfig :=
  d.readAs ofJson?

/-- How many events may wait, at least one. -/
def capacity (c : ServiceConfig) : Nat :=
  max c.eventBuffer.toNat 1

end ServiceConfig

end PortLogic
