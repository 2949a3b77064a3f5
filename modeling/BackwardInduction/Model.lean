import BackwardInduction.Dict
import BackwardInduction.Value

/-!
Models of costs and of transitions, and look-up in them. A table holds an item
for states and actions. A stationary model has one table; a time-varying one has
a table for some stages, and behind them a table for all.
-/

namespace BackwardInduction

abbrev Table (β : Type) := Dict String (Dict String β)

/-- Weights of next states. -/
abbrev Row (α : Type) := Dict String α

inductive Model (β : Type) where
  | stationary (table : Table β)
  | timeVarying (stages : Dict Nat (Table β)) (fallback : Table β)
deriving DecidableEq

abbrev CostModel (α : Type) := Model α

abbrev TransitionModel (α : Type) := Model (Row α)

def Table.cell? {β : Type} (t : Table β) (state action : String) : Option β :=
  (t.get? state).bind fun cells => cells.get? action

namespace Model

variable {β : Type}

/-- The table of one stage alone. -/
def stageTable? (m : Model β) (stage : Nat) : Option (Table β) :=
  match m with
  | .stationary _ => none
  | .timeVarying stages _ => stages.get? stage

/-- The table behind the stages. -/
def commonTable : Model β → Table β
  | .stationary table => table
  | .timeVarying _ fallback => fallback

/-- The item of the stage's own table if it has one that counts, else that of the common
table if that counts. -/
def find? (counts : β → Bool) (m : Model β) (stage : Nat) (state action : String) : Option β :=
  (((m.stageTable? stage).bind fun t => Table.cell? t state action).filter counts).or
    ((Table.cell? m.commonTable state action).filter counts)

/-- The model as a number that is no stage sees it: without its stages. -/
def unstaged (m : Model β) : Model β :=
  .stationary m.commonTable

end Model

variable {α : Type}

section Lookup

variable [Zero α] [One α]

/-- The row of a state that is never left. -/
def identityRow (state : String) (states : List String) : Row α :=
  Dict.ofKeys states fun next => if next = state then 1 else 0

/-- The row that applies; an empty row counts as missing, and a missing one as staying. -/
def Model.row (m : TransitionModel α) (stage : Nat) (state action : String)
    (states : List String) : Row α :=
  (m.find? (!·.isEmpty) stage state action).getD (identityRow state states)

/-- The cost that applies; a missing one is zero. -/
def Model.cost (m : CostModel α) (stage : Nat) (state action : String) : α :=
  (m.find? (fun _ => true) stage state action).getD 0

/-- The row that applies at any whole number, stage or not. -/
def Model.rowAt (m : TransitionModel α) (stage : Int) (state action : String)
    (states : List String) : Row α :=
  match stage with
  | .ofNat n => m.row n state action states
  | .negSucc _ => m.unstaged.row 0 state action states

/-- The cost that applies at any whole number, stage or not. -/
def Model.costAt (m : CostModel α) (stage : Int) (state action : String) : α :=
  match stage with
  | .ofNat n => m.cost n state action
  | .negSucc _ => m.unstaged.cost 0 state action

end Lookup

section Raw

def Dict.toValue {ν : Type} (f : ν → Value α) (d : Dict String ν) : Value α :=
  .map (d.entries.map fun e => (.text e.1, f e.2))

def scalarValue (x : α) : Value α :=
  .number (.real x)

def Row.toValue (r : Row α) : Value α :=
  Dict.toValue scalarValue r

variable {β : Type}

def Table.toValue (f : β → Value α) (t : Table β) : Value α :=
  Dict.toValue (Dict.toValue f) t

namespace Model

def stagesValue (f : β → Value α) (stages : Dict Nat (Table β)) : Value α :=
  .map (stages.entries.map fun e => (.number (.whole e.1), Table.toValue f e.2))

/-- The model as a raw value that is marked with its layout. -/
def toValue (f : β → Value α) : Model β → Value α
  | .stationary table => .stationary (Table.toValue f table)
  | .timeVarying stages fallback =>
      .timeVarying (stagesValue f stages) (Table.toValue f fallback)

def sortedStages (stages : Dict Nat (Table β)) : Dict Nat (Table β) :=
  stages.sortByKey fun a b => decide (a ≤ b)

/-- The model as a plain mapping: the stages in ascending order under their numbers, and
the common table written over them. -/
def flatten (f : β → Value α) : Model β → Dict String (Value α)
  | .stationary table => table.mapValues fun _ cells => Dict.toValue f cells
  | .timeVarying stages fallback =>
      (Dict.ofList ((sortedStages stages).entries.map fun e =>
        (toString e.1, Table.toValue f e.2))).update
        (fallback.mapValues fun _ cells => Dict.toValue f cells)

end Model

end Raw

end BackwardInduction
