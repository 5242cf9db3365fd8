import PortLogic.Json

/-!
# PortLogic.Storage — documents and the folder that holds them

A document is read as UTF-8 and then as JSON. A folder holds files by name; it may refuse to be
written, as a folder that does not exist does.
-/

namespace PortLogic

/-- Why storage fails. -/
inductive StorageFault where
  /-- A file cannot be read or written. -/
  | inaccessible
  /-- A document does not hold what it should. -/
  | malformed
deriving DecidableEq

/-- What a path leads to. -/
inductive Document where
  | missing
  | folder
  | file (bytes : ByteArray)

namespace Document

/-- The text of a document. -/
def text : Document → Except StorageFault String
  | .missing | .folder => .error .inaccessible
  | .file bytes =>
    match String.fromUTF8? bytes with
    | some text => .ok text
    | none => .error .inaccessible

/-- Reads a document as JSON. -/
def readAs [JsonFormat] {α : Type} (read : Json → Option α) (d : Document) :
    Except StorageFault α :=
  d.text.bind fun text =>
    match (JsonFormat.read text).bind read with
    | some value => .ok value
    | none => .error .malformed

end Document

/-- A folder of files. -/
structure Folder where
  files : List (String × ByteArray)
  /-- Whether files can be written at the moment. -/
  writable : Bool

namespace Folder

/-- A folder without files. -/
def empty : Folder := ⟨[], true⟩

/-- The document with a name. -/
def document (f : Folder) (name : String) : Document :=
  match f.files.lookup name with
  | some bytes => .file bytes
  | none => .missing

/-- The names of the files in ascending order. -/
def names (f : Folder) : List String :=
  (f.files.map (·.1)).mergeSort fun a b => decide (a ≤ b)

/-- Removes a file. -/
def remove (f : Folder) (name : String) : Folder :=
  { f with files := f.files.filter fun file => file.1 ≠ name }

/-- Puts a file in place of what had its name. -/
def put (f : Folder) (name : String) (bytes : ByteArray) : Folder :=
  { f with files := (name, bytes) :: (f.remove name).files }

/-- Gives a file another name, in place of what had that name. -/
def rename (f : Folder) (source target : String) : Folder :=
  match f.files.lookup source with
  | some bytes => (f.remove source).put target bytes
  | none => f

end Folder

end PortLogic
