import PortLogic.Port.Encoding
import PortLogic.Storage

/-!
# PortLogic.Storage.State — the state file

The state file lists the configurations of all ports. It is written beside the last one and then
renamed over it, so that an interrupted save leaves the last one whole.
-/

namespace PortLogic

variable [JsonFormat]

namespace Document

/-- Reads a state file; a missing one lists no ports. -/
def configs (d : Document) : Except StorageFault (List PortConfig) :=
  match d with
  | .missing => .ok []
  | d => d.readAs PortConfig.listOfJson?

end Document

/-- The text of a state file. -/
def PortConfig.stateText (configs : List PortConfig) : String :=
  JsonFormat.write (PortConfig.listToJson configs)

namespace Folder

/-- The name of the state file. -/
def stateName : String := "state.json"

/-- The name of a state file that is being written. -/
def partialName : String := "state.partial"

/-- Writes the state file. -/
def saveState (f : Folder) (configs : List PortConfig) : Except StorageFault Unit × Folder :=
  if f.writable then
    let bytes := (PortConfig.stateText configs).toUTF8
    (.ok (), (f.put partialName bytes).rename partialName stateName)
  else
    (.error .inaccessible, f)

/-- Reads the state file. -/
def loadState (f : Folder) : Except StorageFault (List PortConfig) :=
  (f.document stateName).configs

end Folder

end PortLogic
