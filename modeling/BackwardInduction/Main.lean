import BackwardInduction.Command.Generate
import BackwardInduction.Command.Solve
import BackwardInduction.Scalar.Binary64

/-!
The commands as programs over the files of the system.
-/

namespace BackwardInduction

def faultOfSystem : IO.Error → FileFault
  | .alreadyExists .. => .alreadyThere
  | .inappropriateType .. => .notDirectory
  | .illegalOperation .. => .isDirectory
  | .unsupportedOperation .. => .isDirectory
  | _ => .notFound

def tryFile {β : Type} (act : IO β) : IO (Except FileFault β) := do
  try return .ok (← act)
  catch e => return .error (faultOfSystem e)

instance : FileAccess IO where
  read p := tryFile (IO.FS.readBinFile p.text)
  write p text := tryFile (IO.FS.writeFile p.text text)
  makeDirectories p := do
    return (← tryFile (IO.FS.createDirAll p.text)).mapError fun e => (p, e)

namespace Command

/-- Prints what a run has to say and gives the status it ends with. -/
def print (r : Report) : IO UInt32 := do
  IO.print r.out
  IO.eprint r.err
  match r.ending with
  | .stopped stop => return stop.status.toUInt32
  | .returned status => return status.toUInt32
  | .escaped fault =>
      IO.eprintln fault.message
      return 1

def generateMain (args : List String) : IO UInt32 := do
  print (← generate Float args)

end Command

end BackwardInduction

def main (args : List String) : IO UInt32 := do
  BackwardInduction.Command.print (← BackwardInduction.Command.solve Float args)
