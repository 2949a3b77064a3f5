import BackwardInduction.Problem

/-!
The bundled example: a robot moves between the zones A, B and C over four hourly
decisions, in each of which it waits, charges or delivers.
-/

namespace BackwardInduction.Problem

variable {α : Type} [Scalar α]

def tableOf {β : Type} (rows : List (String × List (String × β))) : Table β :=
  Dict.ofList (rows.map fun (state, cells) => (state, Dict.ofList cells))

def deliveryCosts : Table α :=
  tableOf
    [ ("A", [("wait", 1.0), ("charge", 3.0), ("deliver", 2.0)]),
      ("B", [("wait", 1.0), ("charge", 3.0), ("deliver", 2.0)]),
      ("C", [("wait", 1.0), ("charge", 3.0), ("deliver", 4.0)]) ]

def deliveryTransitions : Table (Row α) :=
  tableOf
    [ ("A",
        [ ("wait", Dict.ofList [("A", 0.8), ("B", 0.2)]),
          ("charge", Dict.ofList [("A", 0.9), ("B", 0.1)]),
          ("deliver", Dict.ofList [("B", 0.7), ("C", 0.3)]) ]),
      ("B",
        [ ("wait", Dict.ofList [("B", 0.8), ("C", 0.2)]),
          ("charge", Dict.ofList [("A", 0.4), ("B", 0.6)]),
          ("deliver", Dict.ofList [("C", 0.8), ("B", 0.2)]) ]),
      ("C",
        [ ("wait", Dict.ofList [("C", 1.0)]),
          ("charge", Dict.ofList [("B", 1.0)]),
          ("deliver", Dict.ofList [("C", 1.0)]) ]) ]

def deliveryRobot : Problem α where
  states := ["A", "B", "C"]
  actions := ["wait", "charge", "deliver"]
  horizon := 4
  discount := .real 1
  costs := .stationary deliveryCosts
  transitions := .stationary deliveryTransitions
  salvage := Dict.ofKeys ["A", "B", "C"] fun _ => 0

end BackwardInduction.Problem
