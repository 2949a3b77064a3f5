import BackwardInduction.Problem

/-!
A summary of a problem in a few lines: its size, its layouts, and the row and the
cost of the first state and the first action at stage zero.
-/

namespace BackwardInduction

namespace Problem

variable {α : Type} [Scalar α]

def sampleSize : Nat := 5

def sample (names : List String) : String :=
  let shown := ", ".intercalate (names.take sampleSize)
  if names.length ≤ sampleSize then shown else shown ++ ", ..."

def countLine (what : String) (names : List String) : String :=
  s!"{what}: {names.length} [{sample names}]"

def modelText {β : Type} : Model β → String
  | .stationary _ => "StationaryModel"
  | .timeVarying _ _ => "TimeVaryingModel"

def cellLines (p : Problem α) : List String :=
  match p.states.head?, p.actions.head? with
  | some state, some action =>
      let row := Notice.dictText (p.transitions.row 0 state action p.states)
      let cost := Scalar.text (p.costs.cost 0 state action)
      [ s!"stage 0 transition row for state '{state}', action '{action}': {row}",
        s!"stage 0 cost for state '{state}', action '{action}': {cost}" ]
  | _, _ => []

def summary (p : Problem α) : String :=
  "\n".intercalate <|
    [ countLine "states" p.states,
      countLine "actions" p.actions,
      s!"horizon: {p.horizon}, discount: {p.discount.text}",
      s!"transition layout: {modelText p.transitions}",
      s!"cost layout: {modelText p.costs}" ] ++
    p.cellLines

end Problem

end BackwardInduction
