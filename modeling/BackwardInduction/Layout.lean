import BackwardInduction.Fault

/-!
How the top-level keys of a raw model are read: all as states, all as stages, or
each as what it looks like. A key looks like a stage if it is a whole number from
zero on, or a text of such a number in plain digits.
-/

namespace BackwardInduction

/-- A layout by its name; a name that is none of the three is kept for the message. -/
inductive Layout where
  | auto
  | stationary
  | timeVarying
  | unknown (name : String)
deriving DecidableEq

namespace Layout

def ofName (name : String) : Layout :=
  if name = "auto" then .auto
  else if name = "stationary" then .stationary
  else if name = "time-varying" then .timeVarying
  else .unknown name

def name : Layout → String
  | .auto => "auto"
  | .stationary => "stationary"
  | .timeVarying => "time-varying"
  | .unknown name => name

def isKnown : Layout → Bool
  | .unknown _ => false
  | _ => true

end Layout

/-- The stage that a text names: digits with white space around them. -/
def stageOfText (s : String) : Except Fault (Option Nat) :=
  let cs := Text.strip Text.isBlank s.toList
  if cs.isEmpty || !cs.all Text.isDigit then .ok none
  else if Numeral.digitLimit < cs.length then .error (.tooManyDigits cs.length)
  else .ok (some (Text.digitsValue cs))

/-- The stage that a key names, if it names one. -/
def Key.stage {α : Type} : Key α → Except Fault (Option Nat)
  | .number (.whole i) => .ok (if 0 ≤ i then some i.toNat else none)
  | .text s => stageOfText s
  | _ => .ok none

end BackwardInduction
