import BackwardInduction.Files.Access
import BackwardInduction.Problem.Document

/-!
Documents in files. A file holds UTF-8; every way of ending a line counts as a
line feed.
-/

namespace BackwardInduction

variable {α : Type} [Scalar α]

/-- The value of the JSON text in the bytes of a file. -/
def documentOfBytes (path : Path) (bytes : ByteArray) : Except Fault (Value α) :=
  match Text.decodeUtf8 bytes with
  | .error e => .error (.undecodable e)
  | .ok cs =>
      match Json.document (some (String.ofList (Text.unifyNewlines cs))) .null with
      | .error (.badJson e) => .error (.badJsonFile path e)
      | r => r

variable {m : Type → Type} [Monad m] [FileAccess m]

def readDocument (path : Path) : m (Except Fault (Value α)) := do
  if path.hasNull then return .error .nullInPath
  match ← FileAccess.read path with
  | .error e => return .error (.unreadableFile path e)
  | .ok bytes => return documentOfBytes path bytes

/-- The problem in a file. -/
def Problem.load (path : Path) (override : Option String := none) :
    m (Traced α (Problem α)) := do
  match ← readDocument path with
  | .error e => return throw e
  | .ok document => return Problem.ofDocument document path.text override

/-- Writes a text to a file. It is said what fault one of the files is. -/
def writeText (path : Path) (text : String) (fault : Path → FileFault → Fault) :
    m (Except Fault Unit) := do
  if path.hasNull then return .error .nullInPath
  match ← FileAccess.write path text with
  | .error e => return .error (fault path e)
  | .ok () => return .ok ()

/-- Makes a directory and those above it. -/
def makeDirectories (path : Path) : m (Except Fault Unit) := do
  if path.hasNull then return .error .nullInPath
  match ← FileAccess.makeDirectories path with
  | .error (path, e) => return .error (.file path e)
  | .ok () => return .ok ()

end BackwardInduction
