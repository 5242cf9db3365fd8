import PortLogic.Engine.Commit

/-!
# PortLogic.Engine.Edit — registering and editing ports

Every edit yields a result and the engine after it. An edit checks everything before it changes
anything, so that a rejected one leaves the engine as it was; only writing a value reaches the
write transform and the driver before it can fail.
-/

namespace PortLogic

/-- The tree of a transform, none for a blank source. A transform may reference its own port
only. -/
def readTransformOf (id source : String) : Except Error (Option Expr) :=
  if Text.isBlankText source then .ok none
  else
    match Expr.parse id source with
    | .error e => .error (.parse e)
    | .ok e =>
      match e.ports.find? (· ≠ id) with
      | some foreign => .error (.foreignReference id foreign)
      | none => .ok (some e)

/-- Takes the value from a port until its filter yields one. -/
def Port.forgetValue {δ : Type} (p : Port δ) : Port δ :=
  { p with value := none, lastRead := none, reason := .native }

namespace Engine

variable {δ : Type}

/-- The result of an edit, and the engine after it. -/
abbrev Edited (δ : Type) := Except Error Unit × Engine δ

/-- Rejects an edit. -/
def reject (e : Engine δ) (err : Error) : Edited δ :=
  (.error err, e)

/-- The tree of a value expression, which must not lead back to its port. -/
def readExpression (e : Engine δ) (id source : String) : Except Error Expr :=
  match Expr.parse id source with
  | .error err => .error (.parse err)
  | .ok expr =>
    let depth := e.table.loopDepth id expr
    if 1 < depth then .error (.loop id depth) else .ok expr

/-! ## Registration -/

/-- Gives a new output port its stored expression, unless that no longer holds. -/
def restoreExpression (e : Engine δ) (source : String) (p : Port δ) : Port δ :=
  if Text.isBlankText source ∨ p.output = false then p
  else
    match e.readExpression p.id source with
    | .ok expr => p.assignExpression source (if p.enabled then some expr else none)
    | .error _ => p

/-- The port that a configuration describes. Stored expressions and transforms that no longer hold
are dropped. -/
def portOf (e : Engine δ) (config : PortConfig) (driver : Option δ) : Port δ :=
  let p := Port.ofConfig config driver
  let stored (source : String) := (readTransformOf config.id source).toOption.join
  e.restoreExpression config.expression
    { p with
      readTransform := stored config.readTransform
      writeTransform := stored config.writeTransform }

/-- Registers a port in the lowest free slot. -/
def addPort (e : Engine δ) (config : PortConfig) (driver : Option δ) : Edited δ :=
  if !PortId.isValid config.id.toList then e.reject (.invalidId config.id)
  else if (e.table.find? config.id).isSome then e.reject (.alreadyExists config.id)
  else
    match e.table.freeSlot? with
    | none => e.reject .tooManyPorts
    | some slot =>
      let table := (e.table.insert slot (e.portOf config driver)).refreshTriggers
      (.ok (), { e with table }.touchSlot slot)

/-- Removes a virtual port. -/
def unregister (e : Engine δ) (id : String) : Edited δ :=
  match e.entry? id with
  | none => e.reject (.notFound id)
  | some (slot, p) =>
    if !p.isVirtual then e.reject (.notVirtual id)
    else
      let touched := e.touchSlot slot
      let table := (touched.table.free slot).refreshTriggers
      (.ok (), { touched with table }.notify (.portUpdate id))

/-! ## Expressions and transforms -/

/-- Assigns the value expression of an output; a blank source clears it. -/
def setExpression (e : Engine δ) (id source : String) : Edited δ :=
  match e.entry? id with
  | none => e.reject (.notFound id)
  | some (slot, p) =>
    if !p.output then e.reject (.inputExpression id)
    else
      let assign (expr : Option Expr) : Edited δ :=
        let live := if p.enabled then expr else none
        let next := { p.assignExpression source live with dirty := true }
        (.ok (), ((e.modify slot fun _ => next).refreshTriggers).touchSlot slot)
      if Text.isBlankText source then assign none
      else
        match e.readExpression id source with
        | .error err => e.reject err
        | .ok expr => assign (some expr)

/-- Assigns a transform of a port with `set`; a blank source clears it. -/
def setTransform (set : Port δ → Option Expr → Port δ) (e : Engine δ) (id source : String) :
    Edited δ :=
  match readTransformOf id source with
  | .error err => e.reject err
  | .ok transform =>
    match e.entry? id with
    | none => e.reject (.notFound id)
    | some (slot, p) => (.ok (), e.modify slot fun _ => { set p transform with dirty := true })

/-- Assigns the transform of sampled values. -/
def setReadTransform (e : Engine δ) (id source : String) : Edited δ :=
  setTransform (fun p transform => { p with readTransform := transform }) e id source

/-- Assigns the transform of written values. -/
def setWriteTransform (e : Engine δ) (id source : String) : Edited δ :=
  setTransform (fun p transform => { p with writeTransform := transform }) e id source

/-! ## Filters -/

/-- Replaces the filter of a port and forgets its samples. A filter of another kind or width takes
the value too. -/
def setFilter (e : Engine δ) (id : String) (kind : FilterKind) (width : Nat) : Edited δ :=
  if width < 1 ∨ Filter.maxWidth < width then e.reject (.filterWidth width)
  else
    match e.entry? id with
    | none => e.reject (.notFound id)
    | some (slot, p) =>
      if p.filter.kind = kind ∧ p.filter.width = width then
        (.ok (), e.modify slot fun _ => { p with filter := p.filter.reset })
      else
        let p := { p with filter := Filter.ofWidth kind width, dirty := true }
        if p.value.isSome then
          let next := (e.modify slot fun _ => p.forgetValue).touchSlot slot
          (.ok (), next.notify (.valueChange id none))
        else
          (.ok (), e.modify slot fun _ => p)

/-! ## Enabling and disabling -/

/-- Makes a disabled port live again, with its stored expression. -/
def enable (e : Engine δ) (id : String) : Edited δ :=
  match e.entry? id with
  | none => e.reject (.notFound id)
  | some (slot, p) =>
    if p.enabled then (.ok (), e)
    else
      let revive (live : Option Expr) : Edited δ :=
        let next := { p with enabled := true, live, sampledAt := none, dirty := true }
        let touched := ((e.modify slot fun _ => next).refreshTriggers).touchSlot slot
        (.ok (), touched.notify (.portUpdate id))
      if p.expression = "" then revive none
      else
        match e.readExpression id p.expression with
        | .error err => e.reject err
        | .ok expr => revive (some expr)

/-- Takes the value and the live expression from a port; its sources stay. -/
def disable (e : Engine δ) (id : String) : Edited δ :=
  match e.entry? id with
  | none => e.reject (.notFound id)
  | some (slot, p) =>
    if !p.enabled then (.ok (), e)
    else
      let next :=
        { p with
          enabled := false
          value := none
          lastRead := none
          live := none
          filter := p.filter.reset
          dirty := true }
      (.ok (), ((e.modify slot fun _ => next).touchSlot slot).notify (.portUpdate id))

/-- Has the next tick evaluate a port and what depends on it. -/
def touch (e : Engine δ) (id : String) : Edited δ :=
  match e.table.slotOf? id with
  | none => e.reject (.notFound id)
  | some slot => (.ok (), e.touchSlot slot)

/-! ## Values and drivers -/

variable [Driver δ] [Power]

/-- Writes a value to an enabled output. -/
def setValue (e : Engine δ) (id : String) (x : Number) : Edited δ :=
  match e.entry? id with
  | none => e.reject (.notFound id)
  | some (slot, p) =>
    if !p.output then e.reject (.notOutput id)
    else if !p.enabled then e.reject (.disabled id)
    else
      match p.normalize x with
      | none => e.reject (.invalidValue id x)
      | some fitted => e.commit slot p fitted .native

/-- Lets the world act on the driver of a port. -/
def adjustDriver (e : Engine δ) (id : String) (f : δ → δ) : Engine δ :=
  match e.table.slotOf? id with
  | none => e
  | some slot => e.modify slot fun p => { p with driver := p.driver.map f }

end Engine

end PortLogic
