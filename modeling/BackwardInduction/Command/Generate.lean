import BackwardInduction.Command.Report
import BackwardInduction.Files.Document
import BackwardInduction.Json.Writer
import BackwardInduction.Problem.Synthetic

/-!
The command that writes the document of a random problem into a directory.
-/

namespace BackwardInduction.Command

open Options

variable {α : Type} [Scalar α]

section Dataset

variable {m : Type → Type} [Monad m] [FileAccess m]

/-- Makes the directory and writes the document of the data set into it. What is written in front
of an overlong number stays in the file. -/
def writeDocument (directory : Path) (document : Except Fault (Value α)) :
    ExceptT Fault m Path := do
  ExceptT.mk (makeDirectories directory)
  let document ← ExceptT.mk (pure document)
  let path := directory.entry "problem.json"
  let broken := Json.brokenText? document
  ExceptT.mk (writeText path (broken.getD (Json.fileText document)) .file)
  if broken.isSome then throw .overlongNumber else return path

/-- Makes the directory, draws the problem and writes its document. -/
def writeDataset (directory : Path) (d : Draft α) (seed : Int) : ExceptT Fault m Path :=
  writeDocument directory ((d.ofSeed seed).map Problem.toDocument)

end Dataset

inductive GenerateKey where
  | help
  | states
  | actions
  | horizon
  | discount
  | timeVarying
  | seed
deriving DecidableEq

def generateGrammar : Grammar GenerateKey where
  spellings :=
    [ ("-h", .help), ("--help", .help),
      ("--states", .states),
      ("--actions", .actions),
      ("--horizon", .horizon),
      ("--discount", .discount),
      ("--time-varying", .timeVarying),
      ("--seed", .seed) ]
  takesValue
    | .help | .timeVarying => false
    | _ => true

structure DatasetSettings (α : Type) where
  directory : Option Path := none
  states : Setting Int := .value 10
  actions : Setting Int := .value 3
  horizon : Setting Int := .value 5
  discount : Setting α
  timeVarying : Bool := false
  seed : Setting Int := .value 0

namespace DatasetSettings

def wholeOf (text : String) : Option Int :=
  (Numeral.readWhole text).toOption

def set (s : DatasetSettings α) (key : GenerateKey) (value : Option String) :
    Except Stop (DatasetSettings α) := do
  match key with
  | .help => .error .help
  | .states => return { s with states := ← Setting.read wholeOf value }
  | .actions => return { s with actions := ← Setting.read wholeOf value }
  | .horizon => return { s with horizon := ← Setting.read wholeOf value }
  | .discount => return { s with discount := ← Setting.read Scalar.ofText? value }
  | .timeVarying => return { s with timeVarying := true }
  | .seed => return { s with seed := ← Setting.read wholeOf value }

def setDirectory (s : DatasetSettings α) (text : String) : Except Stop (DatasetSettings α) :=
  .ok { s with directory := Path.ofText text }

def ofArgs (args : List String) : Except Stop (DatasetSettings α) :=
  parse generateGrammar 1 set setDirectory { discount := .value 1 } args

def count : Setting Int → Except Fault Int
  | .value i => .ok i
  | _ => .error .noCount

/-- The draft and the seed. The horizon of a stationary problem counts nothing and may stay
blank. -/
def draft (s : DatasetSettings α) : Except Fault (Draft α × Int) := do
  let seed ← match s.seed with
    | .value i => .ok i
    | _ => .error .noSeed
  let stateCount ← count s.states
  let actionCount ← count s.actions
  let horizon ← if s.timeVarying then count s.horizon else .ok (s.horizon.value?.getD 0)
  let discount := .real (s.discount.value?.getD 1)
  return ({ stateCount, actionCount, horizon, discount, timeVarying := s.timeVarying }, seed)

/-- The entry of a document where a setting is blank: the empty list. -/
def blankEntry {β : Type} (name : String) : Setting β → Value α → Value α
  | .blank, .map entries => .map (Entries.set entries name (.list []))
  | _, v => v

def document (s : DatasetSettings α) : Except Fault (Value α) := do
  let (d, seed) ← s.draft
  let p ← d.ofSeed seed
  return blankEntry "horizon" s.horizon (blankEntry "discount" s.discount p.toDocument)

end DatasetSettings

variable {m : Type → Type} [Monad m] [FileAccess m]

variable (α) in
/-- Writes the data set that the arguments ask for. -/
def generate (args : List String) : m Report := do
  match (DatasetSettings.ofArgs args : Except Stop (DatasetSettings α)) with
  | .error stop => return stopped stop
  | .ok s =>
      match s.directory with
      | none => return stopped .usage
      | some directory =>
          match ← (writeDocument directory s.document).run with
          | .error e => return ⟨.escaped e, "", ""⟩
          | .ok path => return ⟨.returned 0, s!"Wrote {path.text}\n", ""⟩

end BackwardInduction.Command
