import BackwardInduction.Layout
import BackwardInduction.Model
import BackwardInduction.Trace

/-!
Models out of raw values. A table is a mapping of mappings, of numbers for costs
and of mappings to weights for transitions; whatever is not that is refused with
the place where it stands.
-/

namespace BackwardInduction

variable {α β : Type} [Scalar α]

/-- A finite number: null is zero, and a text is read as a numeral. -/
def readNumber (place : Place) (v : Value α) : Except Fault α := do
  let x ←
    match v with
    | .null => pure 0
    | .bool _ => throw (.truthValue place)
    | .number (.real x) => pure x
    | .number (.whole i) =>
        match Scalar.ofInt? i with
        | some x => pure x
        | none => throw (.notFinite place)
    | .text s =>
        match Scalar.ofText? s with
        | some x => pure x
        | none => throw (.unreadable place s)
    | v => throw (.notNumber place v.kind)
  if Scalar.isFinite x then return x else throw (.notFinite place)

/-- A number that is not negative. -/
def readWeight (place : Place) (v : Value α) : Except Fault α := do
  let x ← readNumber place v
  if x < 0 then throw (.negativeWeight place (Scalar.text x)) else return x

def entriesOf (place : Place) (v : Value α) : Except Fault (Entries α) :=
  match v with
  | .map entries => .ok entries
  | v => .error (.notMapping place v.kind)

/-- Reads one entry into the map under the display of its key. -/
def readEntry (item : Place → Value α → Except Fault β) (place : Place)
    (d : Dict String β) (e : Key α × Value α) : Except Fault (Dict String β) := do
  return d.insert e.1.display (← item (place.under e.1) e.2)

/-- Reads a mapping whose values `item` reads. -/
def readDict (item : Place → Value α → Except Fault β) (place : Place) (v : Value α) :
    Except Fault (Dict String β) := do
  (← entriesOf place v).foldlM (readEntry item place) ∅

/-- What the cells of a model of each family hold. -/
structure CellReader (α β : Type) where
  family : Family
  read : Place → Value α → Except Fault β

def costCells : CellReader α α :=
  ⟨.cost, readNumber⟩

def transitionCells : CellReader α (Row α) :=
  ⟨.transition, readDict readWeight⟩

namespace CellReader

variable (r : CellReader α β)

def place : Place :=
  Place.ofRoot r.family.plural

def table (place : Place) (v : Value α) : Except Fault (Table β) :=
  readDict (readDict r.read) place v

def stageTables (layers : Dict Nat (Value α)) : Except Fault (Dict Nat (Table β)) :=
  layers.traverse fun stage v => r.table (r.place.stage stage) v

/-- Adds the table of one more stage. -/
def addLayer (layers : Dict Nat (Value α)) (stage : Nat) (v : Value α) :
    Except Fault (Dict Nat (Value α)) :=
  if layers.contains stage then .error (.repeatedStage r.family stage)
  else .ok (layers.insert stage v)

/-- The stages of a model that is marked as time-varying. -/
def markedLayers (stages : Value α) : Except Fault (Dict Nat (Value α)) := do
  let entries ← entriesOf (Place.ofRoot (r.family.name ++ " stages")) stages
  entries.foldlM (fun layers (key, v) => do
    match ← key.stage with
    | some stage => r.addLayer layers stage v
    | none => throw (.badStageKey r.family key.literal)) ∅

/-- The stage that each entry names. -/
def stagesOf (entries : Entries α) : Except Fault (List (Option Nat × Key α × Value α)) :=
  entries.mapM fun (key, v) => do return (← key.stage, key, v)

/-- Parts the entries that name a stage from the others; none if the whole is one table. -/
def layers? (entries : Entries α) (states : List String) (layout : Layout) :
    Traced α (Option (Dict Nat (Value α) × Entries α)) := do
  match layout with
  | .unknown name => throw (.unknownLayout name)
  | .stationary => return none
  | layout =>
      let keyed ← stagesOf entries
      let others := keyed.filterMap fun (stage?, e) => if stage?.isNone then some e else none
      if layout = .timeVarying && !others.isEmpty then
        throw (.strayKeys r.family (others.map (·.1.literal)))
      let staged := keyed.filterMap fun (stage?, e) => stage?.map (·, e)
      if staged.isEmpty then return none
      if layout = .auto then
        let clashes := staged.filter fun (_, key, _) => states.contains (Text.trim key.display)
        if !clashes.isEmpty then
          throw (.ambiguousKeys r.family (clashes.map (·.2.1.literal)))
        Traced.note (.layered r.family (staged.map (·.2.1)))
      let layers ← staged.foldlM (fun layers (stage, _, v) => r.addLayer layers stage v)
        (∅ : Dict Nat (Value α))
      return some (layers, others)

/-- Reads a model. A marked model is read as what it is marked; in a plain one the layout
tells stages and states apart, and null is the model without entries. -/
def model (v : Value α) (states : List String) (layout : Layout) : Traced α (Model β) := do
  match v with
  | .stationary table => return .stationary (← r.table r.place table)
  | .timeVarying stages fallback =>
      let tables ← r.stageTables (← r.markedLayers stages)
      return .timeVarying tables (← r.table r.place fallback)
  | v =>
      let entries ← entriesOf r.place (match v with | .null => .map [] | v => v)
      match ← r.layers? entries states layout with
      | none => return .stationary (← r.table r.place (.map entries))
      | some (layers, others) =>
          let tables ← r.stageTables layers
          return .timeVarying tables (← r.table r.place (.map others))

end CellReader

def readCosts (v : Value α) (states : List String) (layout : Layout) :
    Traced α (CostModel α) :=
  costCells.model v states layout

def readTransitions (v : Value α) (states : List String) (layout : Layout) :
    Traced α (TransitionModel α) :=
  transitionCells.model v states layout

/-- Terminal values; null is none given. -/
def readSalvage (v : Value α) : Except Fault (Dict String α) :=
  match v with
  | .null => .ok ∅
  | v => readDict readNumber (Place.ofRoot "salvage") v

def CostModel.toValue (m : CostModel α) : Value α :=
  Model.toValue scalarValue m

def TransitionModel.toValue (m : TransitionModel α) : Value α :=
  Model.toValue Row.toValue m

end BackwardInduction
