import PortLogic.Driver
import PortLogic.Error
import PortLogic.Filter
import PortLogic.Triggers

/-!
# PortLogic.Port — ports and their configurations

A port is an addressable input, output or virtual value. Its configuration is what is stored of it;
the port adds the live expression, the filter window, the driver, and what the scheduler remembers
from one tick to the next.
-/

namespace PortLogic

/-- What the values of a port are. -/
inductive PortKind where
  /-- Zero or one. -/
  | boolean
  /-- Any finite number within the bounds. -/
  | number
deriving DecidableEq

/-- Where the last change of a value came from. -/
inductive ChangeReason where
  /-- It was sampled, or written from outside. -/
  | native
  /-- The expression of the port produced it. -/
  | expression
deriving DecidableEq

/-- What is stored of a port. -/
structure PortConfig where
  id : String
  kind : PortKind
  /-- Whether the port is written rather than sampled. -/
  output : Bool
  /-- Whether the port exists in memory only. -/
  isVirtual : Bool
  enabled : Bool
  /-- Whether the value is stored when it changes. -/
  persisted : Bool
  /-- Milliseconds between two samples. -/
  samplingInterval : UInt64
  filter : FilterKind
  filterWidth : UInt64
  min : Option Number
  max : Option Number
  expression : String
  readTransform : String
  writeTransform : String
  /-- The stored value. -/
  value : Option Number
deriving DecidableEq

namespace PortConfig

/-- The configuration that absent fields are taken from. -/
def initial : PortConfig where
  id := ""
  kind := .number
  output := false
  isVirtual := false
  enabled := true
  persisted := false
  samplingInterval := 1000
  filter := .none
  filterWidth := 1
  min := none
  max := none
  expression := ""
  readTransform := ""
  writeTransform := ""
  value := none

/-- The configuration of a sampled port. -/
def input (id : String) (kind : PortKind) : PortConfig :=
  { initial with id, kind }

/-- The configuration of a written port. -/
def outputOf (id : String) (kind : PortKind) : PortConfig :=
  { initial with id, kind, output := true }

/-- The configuration of a written numeric port that exists in memory only. -/
def virtualOutput (id : String) : PortConfig :=
  { outputOf id .number with isVirtual := true }

/-- Equality with numbers compared by value. -/
def sameAs (a b : PortConfig) : Bool :=
  a.min == b.min && a.max == b.max && a.value == b.value &&
    decide ({ a with min := none, max := none, value := none } =
      { b with min := none, max := none, value := none })

end PortConfig

/-- A registered port. -/
structure Port (δ : Type) where
  id : String
  kind : PortKind
  output : Bool
  isVirtual : Bool
  enabled : Bool
  persisted : Bool
  min : Option Number
  max : Option Number
  samplingInterval : UInt64
  /-- When the port was due for sampling last. -/
  sampledAt : Option Nat
  /-- The committed value. -/
  value : Value
  /-- The value that references to the port read. -/
  lastRead : Value
  /-- The value seen by the previous change detection. -/
  detected : Value
  filter : Filter
  /-- The stored source of the value expression, empty when there is none. -/
  expression : String
  /-- The value expression of an enabled port. -/
  live : Option Expr
  readTransform : Option Expr
  writeTransform : Option Expr
  /-- What makes the live expression worth evaluating. -/
  triggers : Triggers
  reason : ChangeReason
  /-- Whether the configuration has changes that are not stored. -/
  dirty : Bool
  driver : Option δ

namespace Port

variable {δ : Type}

/-- Fits a number to a kind and to bounds. -/
def fit (kind : PortKind) (min max : Option Number) (x : Number) : Value :=
  if !x.isFinite then none
  else
    match kind with
    | .boolean => some (Number.ofBool x.isTrue)
    | .number =>
      if min.any (fun low => x < low) ∨ max.any (fun high => high < x) then none else some x

/-- Fits a number to the port. -/
def normalize (p : Port δ) (x : Number) : Value :=
  fit p.kind p.min p.max x

/-- A port with a configuration. Its expressions are assigned once they are checked. -/
def ofConfig (config : PortConfig) (driver : Option δ) : Port δ :=
  let value :=
    if config.enabled ∧ config.persisted then
      config.value.bind (fit config.kind config.min config.max)
    else none
  { id := config.id
    kind := config.kind
    output := config.output
    isVirtual := config.isVirtual
    enabled := config.enabled
    persisted := config.persisted
    min := config.min
    max := config.max
    samplingInterval := config.samplingInterval
    sampledAt := none
    value
    lastRead := value
    detected := none
    filter := Filter.ofWidth config.filter config.filterWidth.toNat
    expression := ""
    live := none
    readTransform := none
    writeTransform := none
    triggers := Triggers.none
    reason := .native
    dirty := false
    driver }

/-- The text of a transform, empty when there is none. -/
def transformText (transform : Option Expr) : String :=
  (transform.map Expr.text).getD ""

/-- The configuration of the port as it is now. -/
def config (p : Port δ) : PortConfig where
  id := p.id
  kind := p.kind
  output := p.output
  isVirtual := p.isVirtual
  enabled := p.enabled
  persisted := p.persisted
  samplingInterval := p.samplingInterval
  filter := p.filter.kind
  filterWidth := UInt64.ofNat p.filter.width
  min := p.min
  max := p.max
  expression := p.expression
  readTransform := transformText p.readTransform
  writeTransform := transformText p.writeTransform
  value := if p.persisted then p.value else none

/-- Stores the source of the value expression without the blanks around it, and the tree. -/
def assignExpression (p : Port δ) (source : String) (live : Option Expr) : Port δ :=
  { p with expression := Text.trim source, live }

/-- The ports that the value expression references; that of a disabled port is read from its
stored source. -/
def references (p : Port δ) : List String :=
  match p.live with
  | some e => e.ports
  | none =>
    if p.expression = "" then []
    else
      match Expr.parse p.id p.expression with
      | .ok e => e.ports
      | .error _ => []

end Port

end PortLogic
