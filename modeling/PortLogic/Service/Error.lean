import PortLogic.Error
import PortLogic.Storage

/-!
# PortLogic.Service.Error — why a service fails

A service passes on the errors of its engine and of its storage, and refuses requests once it has
stopped.
-/

namespace PortLogic

/-- The kinds of errors of a service. -/
inductive ServiceErrorKind where
  | inaccessible
  | malformed
  | engine (kind : ErrorKind)
  | stopped
deriving DecidableEq

namespace ServiceErrorKind

/-- The kind in words. -/
def text : ServiceErrorKind → String
  | inaccessible => "Input/Output"
  | malformed => "Json"
  | engine kind => "Core (" ++ kind.text ++ ")"
  | stopped => "Stopped"

/-- An error message: the kind, then a description. -/
def message (kind : ServiceErrorKind) (description : String) : String :=
  kind.text ++ ": " ++ description

/-- An error message as it is shown for debugging. -/
def debugMessage (kind : ServiceErrorKind) (description : String) : String :=
  Text.quoted (kind.message description)

end ServiceErrorKind

/-- The cause of a failed request. -/
inductive ServiceError where
  | storage (fault : StorageFault)
  | engine (e : Error)
  | stopped
deriving DecidableEq

namespace ServiceError

/-- The kind of an error. -/
def kind : ServiceError → ServiceErrorKind
  | storage .inaccessible => .inaccessible
  | storage .malformed => .malformed
  | engine e => .engine e.kind
  | stopped => .stopped

/-- What is wrong, in words. The words for storage are those of the machine. -/
def description? : ServiceError → Option String
  | storage _ => none
  | engine e => some e.message
  | stopped => some "The runtime is not running"

/-- The error message, where its words are known. -/
def message? (e : ServiceError) : Option String :=
  e.description?.map e.kind.message

/-- The error as it is shown for debugging, where its words are known. -/
def debugText? (e : ServiceError) : Option String :=
  e.description?.map e.kind.debugMessage

end ServiceError

end PortLogic
