import PortLogic.Json
import PortLogic.Port

/-!
# PortLogic.Port.Encoding — configurations as JSON

A configuration is a record with a field for each of its parts. Read, every field may be absent;
written, empty sources and absent numbers are left out.
-/

namespace PortLogic

namespace PortKind

/-- The name of a kind in a record. -/
def name : PortKind → String
  | boolean => "boolean"
  | number => "number"

/-- The kinds by name. -/
def named : List (String × PortKind) :=
  [boolean, number].map fun kind => (kind.name, kind)

end PortKind

namespace FilterKind

/-- The name of a kind in a record. -/
def name : FilterKind → String
  | none => "none"
  | median => "median"
  | average => "average"

/-- The kinds by name. -/
def named : List (String × FilterKind) :=
  [none, median, average].map fun kind => (kind.name, kind)

end FilterKind

namespace Json

/-- An unsigned integer. -/
def ofUInt64 (n : UInt64) : Json :=
  .integer n.toNat

/-- A field that is left out when there is no number. -/
def numberField (name : String) (x : Option Number) : List (String × Json) :=
  (x.map fun x => (name, Json.real x)).toList

/-- A field that is left out when the text is empty. -/
def sourceField (name source : String) : List (String × Json) :=
  if source = "" then [] else [(name, .text source)]

end Json

namespace PortConfig

/-- The fields of a record, in order. -/
def fieldNames : List String :=
  ["id", "kind", "output", "virtual", "enabled", "persisted", "sampling_interval_ms", "filter",
    "filter_width", "min", "max", "expression", "read_transform", "write_transform", "value"]

/-- Reads a configuration. -/
def ofJson? (j : Json) : Option PortConfig := do
  let fields ← j.fields? fieldNames
  let number := Json.toOption? Json.toNumber?
  return {
    id := ← fields.read? "id" Json.toText? initial.id
    kind := ← fields.read? "kind" (Json.toNamed? PortKind.named) initial.kind
    output := ← fields.read? "output" Json.toBool? initial.output
    isVirtual := ← fields.read? "virtual" Json.toBool? initial.isVirtual
    enabled := ← fields.read? "enabled" Json.toBool? initial.enabled
    persisted := ← fields.read? "persisted" Json.toBool? initial.persisted
    samplingInterval :=
      ← fields.read? "sampling_interval_ms" Json.toUInt64? initial.samplingInterval
    filter := ← fields.read? "filter" (Json.toNamed? FilterKind.named) initial.filter
    filterWidth := ← fields.read? "filter_width" Json.toUInt64? initial.filterWidth
    min := ← fields.read? "min" number initial.min
    max := ← fields.read? "max" number initial.max
    expression := ← fields.read? "expression" Json.toText? initial.expression
    readTransform := ← fields.read? "read_transform" Json.toText? initial.readTransform
    writeTransform := ← fields.read? "write_transform" Json.toText? initial.writeTransform
    value := ← fields.read? "value" number initial.value }

/-- Writes a configuration. -/
def toJson (c : PortConfig) : Json :=
  .record <|
    [("id", .text c.id),
      ("kind", .text c.kind.name),
      ("output", .bool c.output),
      ("virtual", .bool c.isVirtual),
      ("enabled", .bool c.enabled),
      ("persisted", .bool c.persisted),
      ("sampling_interval_ms", .ofUInt64 c.samplingInterval),
      ("filter", .text c.filter.name),
      ("filter_width", .ofUInt64 c.filterWidth)] ++
    Json.numberField "min" c.min ++ Json.numberField "max" c.max ++
    Json.sourceField "expression" c.expression ++
    Json.sourceField "read_transform" c.readTransform ++
    Json.sourceField "write_transform" c.writeTransform ++
    Json.numberField "value" c.value

/-- Reads a list of configurations. -/
def listOfJson? (j : Json) : Option (List PortConfig) :=
  j.toList? ofJson?

/-- Writes a list of configurations. -/
def listToJson (configs : List PortConfig) : Json :=
  .array (configs.map toJson)

end PortConfig

end PortLogic
