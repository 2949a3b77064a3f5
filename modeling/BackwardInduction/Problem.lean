import BackwardInduction.Solution

/-!
Problems: a domain, a horizon, a discount and models that have been read.
-/

namespace BackwardInduction

structure Problem (α : Type) where
  states : List String
  actions : List String
  horizon : Int
  discount : Number α
  costs : CostModel α
  transitions : TransitionModel α
  salvage : Dict String α

namespace Problem

variable {α : Type} [Scalar α]

/-- The problem as an instance to solve. Its models are marked, so the layout says nothing
about them. -/
def toInstance (p : Problem α) (layout : Layout) : Instance α where
  states := p.states
  actions := p.actions
  horizon := .number (.whole p.horizon)
  discount := .number p.discount
  costs := CostModel.toValue p.costs
  transitions := TransitionModel.toValue p.transitions
  salvage := Dict.toValue scalarValue p.salvage
  layout := layout

def solve (p : Problem α) (layout : Layout := .auto) : Traced α (Solution α) :=
  Solution.solve (p.toInstance layout)

end Problem

end BackwardInduction
