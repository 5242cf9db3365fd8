import PortLogic.Engine
import PortLogic.Port.Encoding

/-!
# PortLogic.Engine.Encoding — times, settings and notifications as JSON

A notification carries its kind in the field `event`, which may stand anywhere in the record.
-/

namespace PortLogic

namespace Now

/-- Reads the fields of a time; the uptime must be there. -/
def ofFields? (fields : Json.Fields) : Option Now := do
  let uptime ← (← fields.lookup "uptime_ms").toUInt64?
  let wall ← fields.read? "unix_ms" (Json.toOption? Json.toUInt64?) none
  return ⟨uptime.toNat, wall.map UInt64.toNat⟩

/-- Reads a time: an object, or an array of both fields. -/
def ofJson? : Json → Option Now
  | .object members => do ofFields? (← Json.members? ["uptime_ms", "unix_ms"] members)
  | .array [uptime, wall] => ofFields? [("uptime_ms", uptime), ("unix_ms", wall)]
  | _ => none

/-- Writes a time. -/
def toJson (now : Now) : Json :=
  .record [
    ("uptime_ms", .integer now.uptime),
    ("unix_ms", (now.wall.map fun t => Json.integer t).getD .null)]

end Now

namespace EngineConfig

/-- Reads settings. -/
def ofJson? (j : Json) : Option EngineConfig := do
  let fields ← j.fields? ["persist_interval_ms"]
  return ⟨← fields.read? "persist_interval_ms" Json.toUInt64? initial.persistInterval⟩

/-- Writes settings. -/
def toJson (c : EngineConfig) : Json :=
  .record [("persist_interval_ms", .ofUInt64 c.persistInterval)]

end EngineConfig

namespace Notification

/-- How deep the record of a notification may be nested. -/
def maxDepth : Nat := 127

/-- Reads the fields of a notification of a kind. -/
def ofFields? (event : String) (fields : Json.Fields) : Option Notification := do
  let id ← (← fields.lookup "id").toText?
  match event with
  | "value_change" =>
    return .valueChange id (← fields.read? "value" (Json.toOption? Json.toNumber?) none)
  | "port_update" => return .portUpdate id
  | _ => none

/-- Reads a notification: an object, or an array of the kind and all fields of that kind. Nothing in
it may be unreadable, even what is ignored. -/
def ofJson? (j : Json) : Option Notification :=
  if !j.isReadable ∨ maxDepth < j.depth then none
  else
    match j with
    | .object members => do
      let event ← (← (← Json.members? ["event"] members).lookup "event").toText?
      let names := if event = "value_change" then ["id", "value"] else ["id"]
      ofFields? event (← Json.members? names members)
    | .array [.text event, id, value] =>
      if event = "value_change" then ofFields? event [("id", id), ("value", value)] else none
    | .array [.text event, id] =>
      if event = "port_update" then ofFields? event [("id", id)] else none
    | _ => none

/-- Writes a value; undefined is null. -/
def valueJson (value : Value) : Json :=
  (value.map Json.real).getD .null

/-- Writes a notification. -/
def toJson : Notification → Json
  | .valueChange id value =>
    .record [("event", .text "value_change"), ("id", .text id), ("value", valueJson value)]
  | .portUpdate id => .record [("event", .text "port_update"), ("id", .text id)]

end Notification

end PortLogic
