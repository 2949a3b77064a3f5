import BackwardInduction.Model
import BackwardInduction.Trace

/-!
Transition rows as distributions. The weights of a row are proportions: each is
divided by their sum, and where that is zero all next states of the row are
equally likely. A row without next states stands for nothing and is refused.
-/

namespace BackwardInduction

variable {α : Type} [Scalar α]

namespace Row

def total (row : Row α) : α :=
  Scalar.sum row.values

def uniform (row : Row α) : Row α :=
  row.mapValues fun _ _ => 1 / (row.size : α)

def proportional (row : Row α) : Row α :=
  row.mapValues fun _ weight => weight / row.total

/-- The distribution of a row that has next states. -/
def distribution (row : Row α) : Row α :=
  if row.total ≤ 0 then row.uniform else row.proportional

def normalize (row : Row α) (stage : Option Int) (state action : String) :
    Except Fault (Row α) :=
  if row.isEmpty then .error (.emptyRow stage state action) else .ok row.distribution

/-- The next states that are not declared, if any states are. -/
def undeclared (row : Row α) (states : List String) : List String :=
  if states.isEmpty then [] else row.keys.filter fun next => !states.contains next

end Row

/-- Normalizes a row and gives notice of its undeclared next states. -/
def normalizeCell (states : List String) (stage : Option Nat) (state action : String)
    (row : Row α) : Traced α (Row α) := do
  let names := row.undeclared states
  if !names.isEmpty then Traced.note (.undeclared stage state action names)
  row.normalize (stage.map Int.ofNat) state action

def normalizeTable (states : List String) (stage : Option Nat) (t : Table (Row α)) :
    Traced α (Table (Row α)) :=
  t.traverse fun state cells => cells.traverse fun action row =>
    normalizeCell states stage state action row

/-- Normalizes every row there is: the stages in ascending order, then the common table. -/
def Model.normalize (m : TransitionModel α) (states : List String) :
    Traced α (TransitionModel α) := do
  match m with
  | .stationary table => return .stationary (← normalizeTable states none table)
  | .timeVarying stages fallback =>
      let stages ← (sortedStages stages).traverse fun stage t =>
        normalizeTable states (some stage) t
      return .timeVarying stages (← normalizeTable states none fallback)

end BackwardInduction
