import BackwardInduction.Text.Blank
import BackwardInduction.Text.Quoted

/-!
Paths in normal form: no empty parts and none that stay in place. Two leading
slashes are a root of their own, more than two are one.
-/

namespace BackwardInduction

structure Path where
  root : String
  parts : List String
deriving DecidableEq

namespace Path

def rootOf (cs : List Char) : String :=
  match cs.takeWhile (· = '/') with
  | [] => ""
  | ['/', '/'] => "//"
  | _ => "/"

def ofText (s : String) : Path where
  root := rootOf s.toList
  parts := ((Text.pieces '/' s.toList).map String.ofList).filter fun p => p != "" && p != "."

def text (p : Path) : String :=
  if p.root.isEmpty && p.parts.isEmpty then "." else p.root ++ "/".intercalate p.parts

/-- No file has a null character in its path. -/
def hasNull (p : Path) : Bool :=
  p.text.toList.contains '\x00'

/-- The path of the entry `name` in the directory. -/
def entry (p : Path) (name : String) : Path :=
  { p with parts := p.parts ++ [name] }

end Path

/-- Why a file could not be opened or a directory not be made. -/
inductive FileFault where
  | notFound
  | alreadyThere
  | notDirectory
  | isDirectory
  | nameTooLong
deriving DecidableEq

namespace FileFault

def number : FileFault → Nat
  | .notFound => 2
  | .alreadyThere => 17
  | .notDirectory => 20
  | .isDirectory => 21
  | .nameTooLong => 36

def reason : FileFault → String
  | .notFound => "No such file or directory"
  | .alreadyThere => "File exists"
  | .notDirectory => "Not a directory"
  | .isDirectory => "Is a directory"
  | .nameTooLong => "File name too long"

def text (f : FileFault) (p : Path) : String :=
  s!"[Errno {f.number}] {f.reason}: {Text.quoted p.text}"

end FileFault

end BackwardInduction
