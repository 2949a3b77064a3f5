import BackwardInduction.Problem
import BackwardInduction.Random.Twister

/-!
Random problems. Weights, costs and terminal values are whole numbers between
bounds, drawn in this order: all transition tables, all cost tables, the terminal
values; within a table state by state and action by action.
-/

namespace BackwardInduction

open BackwardInduction.Random

/-- What kind of problem to draw. A negative count is zero. -/
structure Draft (α : Type) [Scalar α] where
  stateCount : Int
  actionCount : Int
  horizon : Int
  weightLow : Int := 0
  weightHigh : Int := 5
  costLow : Int := 0
  costHigh : Int := 10
  discount : Number α := .real 1
  timeVarying : Bool := false

namespace Draft

variable {α β σ : Type} [Scalar α]

abbrev Drawing (σ : Type) := StateT σ (Except Fault)

def numbered (letter : String) (count : Int) : List String :=
  (List.range count.toNat).map fun i => letter ++ toString i

def states (d : Draft α) : List String :=
  numbered "S" d.stateCount

def actions (d : Draft α) : List String :=
  numbered "A" d.actionCount

/-- Draws a whole number between the bounds, both included. -/
def drawWhole (source : Source σ) (low high : Int) : Drawing σ Int := fun s =>
  if high < low then .error (.emptyRange low high)
  else
    let (n, s) := source.below (high - low + 1).toNat s
    .ok (low + n, s)

def drawNumber (source : Source σ) (low high : Int) : Drawing σ α := do
  match Scalar.ofInt? (← drawWhole source low high) with
  | some x => return x
  | none => throw .beyondRange

/-- Draws an item for each name in turn. -/
def drawDict (names : List String) (item : Drawing σ β) : Drawing σ (Dict String β) := do
  return Dict.ofList (← names.mapM fun name => do return (name, ← item))

def drawTable (d : Draft α) (cell : Drawing σ β) : Drawing σ (Table β) :=
  drawDict d.states (drawDict d.actions cell)

def drawModel (d : Draft α) (cell : Drawing σ β) : Drawing σ (Model β) := do
  if d.timeVarying then
    let tables ← (List.range d.horizon.toNat).mapM fun stage => do
      return (stage, ← d.drawTable cell)
    return .timeVarying (Dict.ofList tables) ∅
  else return .stationary (← d.drawTable cell)

def drawCost (d : Draft α) (source : Source σ) : Drawing σ α :=
  drawNumber source d.costLow d.costHigh

def drawRow (d : Draft α) (source : Source σ) : Drawing σ (Row α) :=
  drawDict d.states (drawNumber source d.weightLow d.weightHigh)

def drawProblem (d : Draft α) (source : Source σ) : Drawing σ (Problem α) := do
  let transitions ← d.drawModel (d.drawRow source)
  let costs ← d.drawModel (d.drawCost source)
  let salvage ← drawDict d.states (d.drawCost source)
  return {
    states := d.states
    actions := d.actions
    horizon := d.horizon
    discount := d.discount
    costs, transitions, salvage }

/-- The problem drawn from the source in its state. -/
def problem (d : Draft α) (source : Source σ) (start : σ) : Except Fault (Problem α) :=
  (d.drawProblem source start).map Prod.fst

/-- The problem of a seed. -/
def ofSeed (d : Draft α) (seed : Int) : Except Fault (Problem α) :=
  d.problem twister (Twister.ofSeed seed)

end Draft

end BackwardInduction
