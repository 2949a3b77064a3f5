import BackwardInduction.Json.Reader
import BackwardInduction.Problem

/-!
Problem documents: mappings with an entry for each part of a problem. A document
may leave out the discount, the models, the terminal values and the layout, may
give names as one comma-separated text, and may give numbers as texts.
-/

namespace BackwardInduction

variable {α : Type} [Scalar α]

namespace Json

def isBlankText (s : String) : Bool :=
  (Text.strip Text.isBlank s.toList).isEmpty

/-- The value of a JSON text. A blank or missing text gives the fallback, and a null
fallback is the empty mapping. -/
def document (text : Option String) (fallback : Value α) : Except Fault (Value α) :=
  let blank : Value α := match fallback with | .null => .map [] | v => v
  match text with
  | none => .ok blank
  | some s =>
      if isBlankText s then .ok blank
      else
        match readAll s.toList with
        | .ok v => .ok v
        | .error (.complaint .loneSurrogate _) => .error .loneSurrogate
        | .error (.complaint c left) => .error (.badJson (.locate s.toList c left))
        | .error (.tooLong digits) => .error (.tooManyDigits digits)

end Json

namespace Problem

def textOf? : Value α → Option String
  | .text s => some s
  | _ => none

/-- Names in a list of texts or in one comma-separated text, trimmed and without blanks. -/
def namesOf (source entry : String) (v : Value α) : Except Fault (List String) :=
  match v with
  | .text s => .ok (Text.names s)
  | .list items =>
      match items.mapM textOf? with
      | some names => .ok ((names.map Text.trim).filter (!·.isEmpty))
      | none => .error (.badNames source entry)
  | _ => .error (.badNames source entry)

def horizonOf (source : String) (v : Value α) : Except Fault Int :=
  match v with
  | .number (.whole i) => .ok i
  | .text s =>
      match Numeral.readWhole (Text.trim s) with
      | .ok i => .ok i
      | .error e => .error (.badHorizonText source (Text.trim s) e)
  | _ => .error (.badHorizon source)

def discountOf (source : String) (v : Value α) : Except Fault α :=
  match v with
  | .number (.real x) => .ok x
  | .number (.whole i) =>
      match Scalar.ofInt? i with
      | some x => .ok x
      | none => .error .beyondRange
  | .text s =>
      match Scalar.ofText? (Text.trim s) with
      | some x => .ok x
      | none => .error (.badDiscountText source (Text.trim s))
  | _ => .error (.badDiscount source)

/-- The layout of a document: an override that is not empty, else its own entry. -/
def layoutOf (source : String) (override : Option String) (entries : Entries α) :
    Except Fault Layout :=
  let chosen : Value α :=
    match override.filter (!·.isEmpty) with
    | some name => .text name
    | none => (entries.get? "layout").getD (.text Layout.auto.name)
  match (textOf? chosen).map Layout.ofName with
  | some (.unknown name) => .error (.badLayout source name)
  | some layout => .ok layout
  | none => .error (.badLayout source chosen.display)

def missing (entries : Entries α) : List String :=
  (["states", "actions"].filter fun name => !entries.contains name) ++
    (if entries.contains "horizon" || entries.contains "stages" then [] else ["horizon"])

/-- An entry of a document; what counts as nothing is the empty mapping. -/
def tableEntry (entries : Entries α) (name : String) : Value α :=
  match entries.get? name with
  | some v => if v.isNothing then .map [] else v
  | none => .map []

def horizonEntry (entries : Entries α) : Value α :=
  (entries.get? "horizon").getD ((entries.get? "stages").getD .null)

def ofEntries (source : String) (override : Option String) (entries : Entries α) :
    Traced α (Problem α) := do
  if !(missing entries).isEmpty then throw (.missingEntries source (missing entries))
  let states ← namesOf source "states" ((entries.get? "states").getD .null)
  let actions ← namesOf source "actions" ((entries.get? "actions").getD .null)
  let horizon ← horizonOf source (horizonEntry entries)
  let discount ← discountOf source ((entries.get? "discount").getD (.number (.real 1)))
  let layout ← layoutOf source override entries
  let costs ← readCosts (tableEntry entries "costs") states layout
  let transitions ← readTransitions (tableEntry entries "transitions") states layout
  let salvage ← readSalvage (tableEntry entries "salvage")
  return { states, actions, horizon, discount := .real discount, costs, transitions, salvage }

def defaultSource : String :=
  "problem document"

/-- The problem that a document describes. Messages name the document by its source. -/
def ofDocument (document : Value α) (source : String := defaultSource)
    (override : Option String := none) : Traced α (Problem α) :=
  match document with
  | .map entries => ofEntries source override entries
  | _ => throw (.noObject source)

def namesValue (names : List String) : Value α :=
  .list (names.map .text)

def flatValue (d : Dict String (Value α)) : Value α :=
  Dict.toValue id d

/-- The entry that keeps keys of stationary models from being taken for stages. -/
def layoutEntry (p : Problem α) : Entries α :=
  match p.costs, p.transitions with
  | .stationary _, .stationary _ => [Value.entry "layout" (.text Layout.stationary.name)]
  | _, _ => []

/-- A document that describes the problem. -/
def toDocument (p : Problem α) : Value α :=
  .map <|
    [ Value.entry "states" (namesValue p.states),
      Value.entry "actions" (namesValue p.actions),
      Value.entry "horizon" (.number (.whole p.horizon)),
      Value.entry "discount" (.number p.discount),
      Value.entry "costs" (flatValue (Model.flatten scalarValue p.costs)),
      Value.entry "transitions" (flatValue (Model.flatten Row.toValue p.transitions)),
      Value.entry "salvage" (Dict.toValue scalarValue p.salvage) ] ++
    p.layoutEntry

end Problem

end BackwardInduction
