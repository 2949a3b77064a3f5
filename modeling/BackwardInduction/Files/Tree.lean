import BackwardInduction.Dict
import BackwardInduction.Files.Access

/-!
A tree of files as a value, from the root of a system down. Work is done in one
directory of it: paths without a root start there, and only changes below it are
told. A step up from the root stays there.
-/

namespace BackwardInduction

/-- Directories and files by the names that lead to them from the root. The root is always
there. -/
structure FileTree where
  /-- The working directory. -/
  home : List String
  directories : List (List String)
  files : Dict (List String) ByteArray
  /-- Files that stay empty, whatever is written to them. -/
  sinks : List (List String)

namespace FileTree

/-- The directories at the root of a usual system. -/
def usualDirectories : List String :=
  ["bin", "boot", "dev", "etc", "home", "lib", "media", "mnt", "opt", "proc", "root", "run",
    "sbin", "srv", "sys", "tmp", "usr", "var"]

/-- A system with nothing in it but a working directory and the null device. -/
def fresh (home : List String) : FileTree where
  home := home
  directories :=
    (List.range (home.length + 1)).map home.take ++ usualDirectories.map fun name => [name]
  files := ∅
  sinks := [["dev", "null"]]

variable (t : FileTree)

def isDirectory (place : List String) : Bool :=
  place.isEmpty || t.directories.contains place

def isFile (place : List String) : Bool :=
  t.files.contains place || t.sinks.contains place

def nameLimit : Nat := 255

def pathLimit : Nat := 4095

/-- Follows names from a place on. All but the last must lead through directories. -/
def walk (place : List String) : List String → Except FileFault (List String)
  | [] => .ok place
  | name :: names =>
      if t.isFile place then .error .notDirectory
      else if !t.isDirectory place then .error .notFound
      else if name = ".." then walk place.dropLast names
      else if nameLimit < name.utf8ByteSize then .error .nameTooLong
      else walk (place ++ [name]) names

/-- The place that a path leads to, where there may be nothing yet. -/
def place (p : Path) : Except FileFault (List String) :=
  if pathLimit < p.text.utf8ByteSize then .error .nameTooLong
  else t.walk (if p.root.isEmpty then t.home else []) p.parts

def read (p : Path) : Except FileFault ByteArray := do
  let place ← t.place p
  if t.isDirectory place then .error .isDirectory
  else if t.sinks.contains place then .ok .empty
  else
    match t.files.get? place with
    | some bytes => .ok bytes
    | none => .error .notFound

def write (p : Path) (bytes : ByteArray) : Except FileFault FileTree := do
  let place ← t.place p
  if t.isDirectory place then .error .isDirectory
  else if t.sinks.contains place then .ok t
  else .ok { t with files := t.files.insert place bytes }

def makeDirectory (p : Path) : Except FileFault FileTree := do
  let place ← t.place p
  if t.isDirectory place || t.isFile place then .error .alreadyThere
  else .ok { t with directories := place :: t.directories }

/-- Whether a path leads to a directory. -/
def leadsToDirectory (p : Path) : Bool :=
  match t.place p with
  | .ok place => t.isDirectory place
  | .error _ => false

/-- Makes a directory in one that is there, unless it is there itself. -/
def ensureDirectory (p : Path) : Except (Path × FileFault) FileTree :=
  match t.makeDirectory p with
  | .ok t => .ok t
  | .error e => if t.leadsToDirectory p then .ok t else .error (p, e)

/-- Makes the directory with these parts, of which the last one comes first, and those above
it where they are missing. -/
def ensureFrom (t : FileTree) (root : String) :
    List String → Except (Path × FileFault) FileTree
  | [] => t.ensureDirectory ⟨root, []⟩
  | name :: above =>
      let p : Path := ⟨root, (name :: above).reverse⟩
      match t.ensureDirectory p with
      | .error (_, .notFound) => do (← ensureFrom t root above).ensureDirectory p
      | r => r

def makeDirectories (p : Path) : Except (Path × FileFault) FileTree :=
  t.ensureFrom p.root p.parts.reverse

/-- Adds a file with the directories that lead to it; a name that ends with a slash is that
of a directory. -/
def add (name : String) (bytes : ByteArray) : FileTree :=
  let p := Path.ofText name
  if name.toList.getLast? = some '/' then (t.makeDirectories p).toOption.getD t
  else
    let t := (t.makeDirectories ⟨p.root, p.parts.dropLast⟩).toOption.getD t
    (t.write p bytes).toOption.getD t

/-- The name of a place below the working directory, seen from there. -/
def nameOf? (place : List String) : Option String :=
  if t.home.isPrefixOf place then some ("/".intercalate (place.drop t.home.length)) else none

/-- The files below the working directory that are new or changed after `before`, sorted by
name. -/
def changes (before after : FileTree) : List (String × ByteArray) :=
  let changed := after.files.entries.filter fun e =>
    (before.files.get? e.1).map ByteArray.data != some e.2.data
  let named := changed.filterMap fun e => (after.nameOf? e.1).map fun name => (name, e.2)
  named.mergeSort fun a b => decide (a.1 ≤ b.1)

end FileTree

instance : FileAccess (StateM FileTree) where
  read p := do return (← get).read p
  write p text := do
    match (← get).write p text.toUTF8 with
    | .ok t => do
        set t
        return .ok ()
    | .error e => return .error e
  makeDirectories p := do
    match (← get).makeDirectories p with
    | .ok t => do
        set t
        return .ok ()
    | .error e => return .error e

end BackwardInduction
