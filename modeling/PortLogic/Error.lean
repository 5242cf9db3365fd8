import PortLogic.Expr.Parse
import PortLogic.Text.Quoted

/-!
# PortLogic.Error — why an operation on ports fails

Each constructor of `Error` is a cause with what it is about; its kind and its words are functions
of it. For debugging the message is shown in quotes.
-/

namespace PortLogic

/-- The kinds of errors. -/
inductive ErrorKind where
  | parse
  | loop
  | foreignPortReference
  | portNotFound
  | portExists
  | tooManyPorts
  | notOutput
  | notVirtual
  | portDisabled
  | invalidValue
  | invalidFilter
  | driver
deriving DecidableEq

namespace ErrorKind

/-- The kind in words. -/
def text : ErrorKind → String
  | parse => "Parse"
  | loop => "Loop"
  | foreignPortReference => "Foreign Port Reference"
  | portNotFound => "Port Not Found"
  | portExists => "Port Exists"
  | tooManyPorts => "Too Many Ports"
  | notOutput => "Not Output"
  | notVirtual => "Not Virtual"
  | portDisabled => "Port Disabled"
  | invalidValue => "Invalid Value"
  | invalidFilter => "Invalid Filter"
  | driver => "Driver"

/-- An error message: the kind, then a description. -/
def message (kind : ErrorKind) (description : String) : String :=
  kind.text ++ ": " ++ description

/-- An error message as it is shown for debugging. -/
def debugMessage (kind : ErrorKind) (description : String) : String :=
  Text.quoted (kind.message description)

end ErrorKind

/-- The cause of a failed operation. -/
inductive Error where
  /-- A source is no expression. -/
  | parse (e : ParseError)
  /-- An expression would lead back to its port through other ports. -/
  | loop (id : String) (depth : Nat)
  /-- A transform references a port other than its own. -/
  | foreignReference (id foreign : String)
  /-- No port has this identifier. -/
  | notFound (id : String)
  /-- A port with this identifier is registered already. -/
  | alreadyExists (id : String)
  /-- Every slot is taken. -/
  | tooManyPorts
  /-- A value is written to an input. -/
  | notOutput (id : String)
  /-- An expression is assigned to an input. -/
  | inputExpression (id : String)
  /-- A port that is not virtual is unregistered. -/
  | notVirtual (id : String)
  /-- A value is written to a disabled port. -/
  | disabled (id : String)
  /-- A text is no identifier. -/
  | invalidId (id : String)
  /-- A value does not fit the port. -/
  | invalidValue (id : String) (x : Number)
  /-- The write transform has no value. -/
  | undefinedWrite (id : String) (x : Number)
  /-- A filter width is out of range. -/
  | filterWidth (width : Nat)
  /-- The driver refuses a value. -/
  | driver (reason : String)
deriving DecidableEq

namespace Error

/-- The kind of an error. -/
def kind : Error → ErrorKind
  | parse _ => .parse
  | loop .. => .loop
  | foreignReference .. => .foreignPortReference
  | notFound _ => .portNotFound
  | alreadyExists _ => .portExists
  | tooManyPorts => .tooManyPorts
  | notOutput _ | inputExpression _ => .notOutput
  | notVirtual _ => .notVirtual
  | disabled _ => .portDisabled
  | invalidId _ | invalidValue .. | undefinedWrite .. => .invalidValue
  | filterWidth _ => .invalidFilter
  | driver _ => .driver

/-- What is wrong, in words. -/
def description : Error → String
  | parse e => e.message
  | loop id depth => s!"Expression of `{id}` loops back to it through {depth} ports"
  | foreignReference id foreign => s!"Transform of `{id}` references `{foreign}`"
  | notFound id => s!"Port `{id}` does not exist"
  | alreadyExists id => s!"Port `{id}` already exists"
  | tooManyPorts => "Every port slot is in use"
  | notOutput id => s!"Port `{id}` is not an output"
  | inputExpression id => s!"Only output ports can have an expression, `{id}` is an input"
  | notVirtual id => s!"Port `{id}` is not virtual"
  | disabled id => s!"Port `{id}` is disabled"
  | invalidId id => s!"`{id}` is not a valid port identifier"
  | invalidValue id x => s!"{x.plainText} is not a valid value for `{id}`"
  | undefinedWrite id x => s!"Write transform of `{id}` is undefined for {x.plainText}"
  | filterWidth width => s!"Filter width must be between 1 and 32, got {width}"
  | driver reason => reason

/-- The error message. -/
def message (e : Error) : String :=
  e.kind.message e.description

/-- The error as it is shown for debugging. -/
def debugText (e : Error) : String :=
  e.kind.debugMessage e.description

end Error

end PortLogic
