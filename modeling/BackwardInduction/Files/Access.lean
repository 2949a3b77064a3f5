import BackwardInduction.Path

/-!
What a command needs of the place where files are. Reading gives bytes; writing
replaces a file or makes a new one in a directory that is there. Paths without a
root start at the working directory.
-/

namespace BackwardInduction

class FileAccess (m : Type → Type) where
  read : Path → m (Except FileFault ByteArray)
  write : Path → String → m (Except FileFault Unit)
  /-- Makes a directory and those above it, where they are missing. A fault comes with the
  path at which it arose. -/
  makeDirectories : Path → m (Except (Path × FileFault) Unit)

end BackwardInduction
