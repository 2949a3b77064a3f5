import BackwardInduction.Command.Report
import BackwardInduction.Files.Document
import BackwardInduction.Json.Writer
import BackwardInduction.Problem.DeliveryRobot
import BackwardInduction.Problem.Summary

/-!
The command that solves a problem: it takes a document or the bundled example,
lets options override its parts, and writes the solution to a file.
-/

namespace BackwardInduction.Command

open Options

variable {α : Type} [Scalar α]

inductive SolveKey where
  | help
  | problem
  | bundled
  | states
  | actions
  | horizon
  | discount
  | costs
  | transitions
  | salvage
  | layout
  | clamp
  | output
  | debug
deriving DecidableEq

def solveGrammar : Grammar SolveKey where
  spellings :=
    [ ("-h", .help), ("--help", .help),
      ("-p", .problem), ("--problem", .problem),
      ("--example", .bundled),
      ("--states", .states),
      ("--actions", .actions),
      ("-T", .horizon), ("--horizon", .horizon),
      ("-g", .discount), ("--discount", .discount),
      ("--costs", .costs),
      ("--transitions", .transitions),
      ("--salvage", .salvage),
      ("--layout", .layout),
      ("--clamp-discount", .clamp),
      ("-o", .output), ("--output", .output),
      ("-d", .debug), ("--debug", .debug) ]
  takesValue
    | .help | .bundled | .clamp | .debug => false
    | _ => true

structure Settings (α : Type) where
  problem : Setting Path := .unset
  bundled : Bool := false
  states : Setting String := .unset
  actions : Setting String := .unset
  horizon : Setting Int := .unset
  discount : Setting α := .unset
  costs : Setting Path := .unset
  transitions : Setting Path := .unset
  salvage : Setting Path := .unset
  layout : Setting Layout := .unset
  clamp : Bool := false
  output : Setting Path := .value (Path.ofText "solution.json")
  debug : Bool := false

namespace Settings

def pathOf (text : String) : Option Path :=
  some (Path.ofText text)

def wholeOf (text : String) : Option Int :=
  (Numeral.readWhole text).toOption

def layoutOf (text : String) : Option Layout :=
  let layout := Layout.ofName text
  if layout.isKnown then some layout else none

/-- Takes one option. The example and a document shut each other out. -/
def set (s : Settings α) (key : SolveKey) (value : Option String) :
    Except Stop (Settings α) := do
  match key with
  | .help => .error .help
  | .problem =>
      if s.bundled then .error .usage
      else return { s with problem := ← Setting.read pathOf value }
  | .bundled => if s.problem.isSet then .error .usage else return { s with bundled := true }
  | .states => return { s with states := ← Setting.read some value }
  | .actions => return { s with actions := ← Setting.read some value }
  | .horizon => return { s with horizon := ← Setting.read wholeOf value }
  | .discount => return { s with discount := ← Setting.read Scalar.ofText? value }
  | .costs => return { s with costs := ← Setting.read pathOf value }
  | .transitions => return { s with transitions := ← Setting.read pathOf value }
  | .salvage => return { s with salvage := ← Setting.read pathOf value }
  | .layout => return { s with layout := ← Setting.read layoutOf value }
  | .clamp => return { s with clamp := true }
  | .output => return { s with output := ← Setting.read pathOf value }
  | .debug => return { s with debug := true }

/-- Whether names are given, be they only commas. -/
def hasNames : Setting String → Bool
  | .value text => !text.isEmpty
  | _ => false

/-- Whether it is said what to solve. A blank document says nothing. -/
def hasSource (s : Settings α) : Bool :=
  s.problem.value?.isSome || s.bundled || hasNames s.states || hasNames s.actions

/-- The settings of a run, which must say what to solve. -/
def ofArgs (args : List String) : Except Stop (Settings α) := do
  let s ← parse solveGrammar 0 set (fun _ _ => .error .usage) {} args
  if s.hasSource then return s else .error .usage

end Settings

section Assembly

variable {m : Type → Type} [Monad m] [FileAccess m]

/-- Replaces an entry by the document in a file, where one is given. -/
def overrideFrom (name : String) (path : Setting Path) (entries : Entries α) :
    ExceptT Fault m (Entries α) := do
  match path with
  | .unset => return entries
  | .blank => throw .noFileToRead
  | .value path => return entries.set name (← ExceptT.mk (readDocument path))

/-- Replaces an entry by a setting. A blank one is the empty list. -/
def override {β : Type} (name : String) (setting : Setting β) (toValue : β → Value α)
    (entries : Entries α) : Entries α :=
  match setting with
  | .unset => entries
  | .blank => entries.set name (.list [])
  | .value b => entries.set name (toValue b)

/-- The document before the options are looked at, and its name in messages. -/
def baseDocument (s : Settings α) : ExceptT Fault m (Entries α × String) := do
  if s.bundled then
    match (Problem.deliveryRobot : Problem α).toDocument with
    | .map entries => return (entries, "bundled example")
    | _ => return ([], "bundled example")
  else
    match s.problem.value? with
    | none => return ([], "command line")
    | some path =>
        match ← ExceptT.mk (readDocument path) with
        | .map entries => return (entries, path.text)
        | _ => throw (.noObjectFile path)

/-- The document with the options written over it. Where a model is replaced, the layout
entry no longer describes the models and is dropped. -/
def assemble (s : Settings α) : ExceptT Fault m (Entries α × String) := do
  let (entries, source) ← baseDocument s
  let names (text : String) : Value α := Problem.namesValue (Text.names text)
  let entries := override "states" s.states names entries
  let entries := override "actions" s.actions names entries
  let entries := override "horizon" s.horizon (fun i => .number (.whole i)) entries
  let entries := override "discount" s.discount scalarValue entries
  let entries :=
    if s.costs.isSet || s.transitions.isSet then entries.erase "layout" else entries
  let entries ← overrideFrom "costs" s.costs entries
  let entries ← overrideFrom "transitions" s.transitions entries
  let entries ← overrideFrom "salvage" s.salvage entries
  return (entries, source)

end Assembly

/-- The nearer end of the interval from zero to `0.9999` for a number outside of it. What
compares with nothing stays. -/
def clampDiscount (x : α) : α :=
  let x := if x < 0 then 0 else x
  if 0.9999 < x then 0.9999 else x

/-- The number as one of the arithmetic, where it is in range. -/
def toScalar? : Number α → Option α
  | .real x => some x
  | .whole i => Scalar.ofInt? i

def clamp (p : Problem α) : Traced α (Problem α) := do
  match toScalar? p.discount with
  | none => return p
  | some given =>
      let used := clampDiscount given
      if !(used ≤ given && given ≤ used) then
        Traced.note (.clamped p.discount (.real used))
      return { p with discount := .real used }

def assembledProblem (s : Settings α) (source : String) (entries : Entries α) :
    Traced α (Problem α) := do
  let p ← Problem.ofEntries source (s.layout.value?.map Layout.name) entries
  if s.clamp then clamp p else return p

def debugText (s : Settings α) (p : Problem α) : String :=
  if s.debug then "[debug] " ++ p.summary ++ "\n" else ""

def level (s : Settings α) : Level :=
  if s.debug then .debug else .info

section Run

variable {m : Type → Type} [Monad m] [FileAccess m]

/-- Writes the solution. Nothing is written before everything else has succeeded. -/
def finish (s : Settings α) (out : String) (t : Traced α (Solution α)) : m Report := do
  let err := log (level s) t.notices
  match t.result with
  | .error e => return failed out err e
  | .ok solution =>
      match s.output.value? with
      | none => return failed out err .noFileToWrite
      | some path =>
          match ← writeText path (Json.fileText solution.toValue) .unwritableFile with
          | .error e => return failed out err e
          | .ok () =>
              let wrote : List (Notice α) := [.wrote solution.horizon path]
              return ⟨.returned 0, out, err ++ log (level s) wrote⟩

def runSettings (s : Settings α) : m Report := do
  match ← (assemble s).run with
  | .error e => return failed "" "" e
  | .ok (entries, source) =>
      let p := assembledProblem s source entries
      let out := match p.result with
        | .ok p => debugText s p
        | .error _ => ""
      finish s out (p >>= fun p => p.solve)

variable (α) in
/-- Solves what the arguments ask for. -/
def solve (args : List String) : m Report := do
  match (Settings.ofArgs args : Except Stop (Settings α)) with
  | .error stop => return stopped stop
  | .ok s => runSettings s

end Run

end BackwardInduction.Command
