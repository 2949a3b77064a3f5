import BackwardInduction.Decimal.Numeral
import BackwardInduction.Json.Complaint
import BackwardInduction.Path
import BackwardInduction.Text.Utf8
import BackwardInduction.Value.Literal

/-!
Everything that can be wrong with an input, by cause. Faults of the input proper
are reported to its author; the others come from a caller or from beneath.
-/

namespace BackwardInduction

/-- Which of the two models of a problem is meant. -/
inductive Family where
  | cost
  | transition
deriving DecidableEq

namespace Family

def name : Family → String
  | .cost => "cost"
  | .transition => "transition"

def plural : Family → String
  | .cost => "costs"
  | .transition => "transitions"

end Family

/-- A place in a raw value: what the value is for, and the keys that lead into it as they
appear in messages. -/
structure Place where
  root : String
  steps : List String
deriving DecidableEq

namespace Place

def ofRoot (root : String) : Place :=
  ⟨root, []⟩

variable {α : Type} [Scalar α] in
def under (p : Place) (key : Key α) : Place :=
  { p with steps := p.steps ++ [key.literal] }

def stage (p : Place) (stage : Nat) : Place :=
  { p with steps := p.steps ++ [toString stage] }

def text (p : Place) : String :=
  p.root ++ String.join (p.steps.map fun s => "[" ++ s ++ "]")

end Place

inductive Fault where
  | notMapping (place : Place) (found : String)
  | notNumber (place : Place) (found : String)
  | truthValue (place : Place)
  | unreadable (place : Place) (text : String)
  | notFinite (place : Place)
  | negativeWeight (place : Place) (shown : String)
  | badStageKey (family : Family) (key : String)
  | repeatedStage (family : Family) (stage : Nat)
  | strayKeys (family : Family) (keys : List String)
  | ambiguousKeys (family : Family) (keys : List String)
  | emptyRow (stage : Option Int) (state action : String)
  | unknownLayout (name : String)
  | noNames (what : String)
  | repeatedNames (what : String) (names : List String)
  | horizonNotWhole (shown : String)
  | horizonTooSmall (horizon : Int)
  | discountNotNumber (shown : String)
  | discountOutside (shown : String)
  | badJson (fault : Json.SyntaxFault)
  | badJsonFile (path : Path) (fault : Json.SyntaxFault)
  | noObject (source : String)
  | noObjectFile (path : Path)
  | missingEntries (source : String) (names : List String)
  | badNames (source entry : String)
  | badHorizon (source : String)
  | badHorizonText (source text : String) (fault : NumeralFault)
  | badDiscount (source : String)
  | badDiscountText (source text : String)
  | badLayout (source shown : String)
  | unreadableFile (path : Path) (fault : FileFault)
  | unwritableFile (path : Path) (fault : FileFault)
  | file (path : Path) (fault : FileFault)
  | nullInPath
  | noFileToRead
  | noFileToWrite
  | noCount
  | noSeed
  | tooManyDigits (digits : Nat)
  | overlongNumber
  | undecodable (fault : Text.Utf8Fault)
  /-- A text has a surrogate outside a pair, so that it is no sequence of characters. -/
  | loneSurrogate
  | beyondRange
  | emptyRange (low high : Int)
  | missingKey (key : String)
  | noDecision (stage : Int) (horizon : Nat)
deriving DecidableEq

namespace Fault

/-- Sorts of faults. From `argument` on they are not faults of the input proper. -/
inductive Kind where
  | document
  | model
  | ambiguity
  | emptyRow
  | domain
  | emptyDomain
  | horizon
  | discount
  | argument
  | encoding
  | overflow
  | missingKey
  | index
  | blankPath
  | blankNumber
  | file (fault : FileFault)
deriving DecidableEq

def kind : Fault → Kind
  | .notMapping .. | .notNumber .. | .truthValue .. | .unreadable .. | .notFinite ..
  | .negativeWeight .. | .badStageKey .. | .repeatedStage .. | .strayKeys .. => .model
  | .ambiguousKeys .. => .ambiguity
  | .emptyRow .. => .emptyRow
  | .noNames .. => .emptyDomain
  | .repeatedNames .. => .domain
  | .horizonNotWhole .. | .horizonTooSmall .. => .horizon
  | .discountNotNumber .. | .discountOutside .. => .discount
  | .badJson .. | .badJsonFile .. | .noObject .. | .noObjectFile .. | .missingEntries ..
  | .badNames .. | .badHorizon .. | .badHorizonText .. | .badDiscount .. | .badDiscountText ..
  | .badLayout .. | .unreadableFile .. | .unwritableFile .. => .document
  | .unknownLayout .. | .nullInPath | .tooManyDigits .. | .overlongNumber
  | .emptyRange .. => .argument
  | .undecodable .. | .loneSurrogate => .encoding
  | .beyondRange => .overflow
  | .missingKey .. => .missingKey
  | .noDecision .. => .index
  | .noFileToRead | .noFileToWrite => .blankPath
  | .noCount | .noSeed => .blankNumber
  | .file _ fault => .file fault

/-- Whether a fault is reported to the author of the input. -/
def isReported (f : Fault) : Bool :=
  match f.kind with
  | .argument | .encoding | .overflow | .missingKey | .index | .blankPath | .blankNumber
  | .file _ => false
  | _ => true

def overlongText (shown : String) : String :=
  s!"Exceeds the limit ({Numeral.digitLimit} digits) for integer string conversion{shown}; " ++
    "use sys.set_int_max_str_digits() to increase the limit"

def tooManyDigitsText (digits : Nat) : String :=
  overlongText s!": value has {digits} digits"

/-- Of a long malformed numeral only the first characters are shown. -/
def numeralText (text : String) : NumeralFault → String
  | .malformed =>
      "invalid literal for int() with base 10: " ++
        String.ofList ((Text.quoted text).toList.take 200)
  | .tooLong digits => tooManyDigitsText digits

def undecodableText (f : Text.Utf8Fault) : String :=
  let which :=
    if f.count = 1 then
      s!"byte 0x{String.ofList (Text.hex 2 f.byte)} in position {f.first}"
    else s!"bytes in position {f.first}-{f.first + f.count - 1}"
  s!"'utf-8' codec can't decode {which}: {f.cause.text}"

def layoutNames : List String :=
  ["auto", "stationary", "time-varying"]

def listed (names : List String) : String :=
  ", ".intercalate names

def tableText : Option Int → String
  | none => "stationary table"
  | some stage => s!"stage {stage}"

def message : Fault → String
  | .notMapping place found => s!"Expected a mapping at {place.text}, got {found}."
  | .notNumber place found => s!"Expected a number at {place.text}, got {found}."
  | .truthValue place => s!"Expected a number at {place.text}, got a boolean."
  | .unreadable place text => s!"Expected a number at {place.text}, got '{text}'."
  | .notFinite place => s!"Non-finite value at {place.text}."
  | .negativeWeight place shown => s!"Negative transition weight {shown} at {place.text}."
  | .badStageKey family key =>
      s!"Time-varying {family.name} model has invalid stage key {key}."
  | .repeatedStage family stage => s!"Stage {stage} appears twice in the {family.name} model."
  | .strayKeys family keys =>
      s!"Time-varying {family.name} model has non-stage keys: {listed keys}."
  | .ambiguousKeys family keys =>
      s!"Top-level {family.name} key(s) {listed keys} " ++
        "could be a stage index or a state name; pass an explicit layout."
  | .emptyRow stage state action =>
      s!"Transition row for state '{state}', action '{action}' in {tableText stage} " ++
        "has no next-state entries."
  | .unknownLayout name =>
      s!"Unknown layout '{name}'; expected one of ({listed (layoutNames.map Text.quoted)})."
  | .noNames what => s!"{what} must contain at least one entry."
  | .repeatedNames what names => s!"{what} must be unique; repeated: {listed names}."
  | .horizonNotWhole shown => s!"Horizon must be an integer, got {shown}."
  | .horizonTooSmall horizon => s!"Horizon must be at least 1, got {horizon}."
  | .discountNotNumber shown => s!"Discount must be a number, got {shown}."
  | .discountOutside shown => s!"Discount must lie in [0, 1], got {shown}."
  | .badJson fault => s!"Invalid JSON: {fault.text}"
  | .badJsonFile path fault => s!"{path.text}: Invalid JSON: {fault.text}"
  | .noObject source => s!"{source} must be a JSON object."
  | .noObjectFile path => s!"{path.text} must contain a JSON object."
  | .missingEntries source names => s!"{source} is missing required keys: {listed names}."
  | .badNames source entry =>
      s!"'{entry}' in {source} must be a list of names or a comma-separated string."
  | .badHorizon source => s!"'horizon' in {source} must be an integer."
  | .badHorizonText source text fault =>
      s!"Non-integer horizon in {source}: {numeralText text fault}"
  | .badDiscount source => s!"'discount' in {source} must be a number."
  | .badDiscountText source text =>
      s!"Non-numeric discount in {source}: could not convert string to float: " ++
        Text.quoted text
  | .badLayout source shown =>
      s!"Unknown layout '{shown}' in {source}; expected one of {listed layoutNames}."
  | .unreadableFile path fault => s!"Could not read {path.text}: {fault.text path}"
  | .unwritableFile path fault => s!"Could not write {path.text}: {fault.text path}"
  | .file path fault => fault.text path
  | .nullInPath => "embedded null byte"
  | .noFileToRead => "'list' object has no attribute 'read_text'"
  | .noFileToWrite => "'list' object has no attribute 'open'"
  | .noCount => "'list' object cannot be interpreted as an integer"
  | .noSeed =>
      "The only supported seed types are: None,\nint, float, str, bytes, and bytearray."
  | .tooManyDigits digits => tooManyDigitsText digits
  | .overlongNumber => overlongText ""
  | .undecodable fault => undecodableText fault
  | .loneSurrogate => "surrogates not allowed"
  | .beyondRange => "int too large to convert to float"
  | .emptyRange low high =>
      s!"empty range for randrange() ({low}, {high + 1}, {high + 1 - low})"
  | .missingKey key => Text.quoted key
  | .noDecision stage horizon =>
      s!"Stage {stage} has no decision; horizon is {horizon}."

end Fault

end BackwardInduction
