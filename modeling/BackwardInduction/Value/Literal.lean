import BackwardInduction.Value

/-!
Literal forms of values, for messages: texts quoted, lists in brackets, mappings
in braces. The display of a value is the same, but a text stands for itself.
-/

namespace BackwardInduction

variable {α : Type} [Scalar α]

def boolLiteral (b : Bool) : String :=
  if b then "True" else "False"

def inBrackets (items : List String) : String :=
  "[" ++ ", ".intercalate items ++ "]"

def inBraces (items : List String) : String :=
  "\x7b" ++ ", ".intercalate items ++ "\x7d"

def Number.text : Number α → String
  | .whole i => toString i
  | .real x => Scalar.text x

namespace Key

def literal : Key α → String
  | .null => "None"
  | .bool b => boolLiteral b
  | .number n => n.text
  | .text s => Text.quoted s

def display : Key α → String
  | .text s => s
  | k => k.literal

end Key

namespace Value

mutual

def literal : Value α → String
  | .null => "None"
  | .bool b => boolLiteral b
  | .number n => n.text
  | .text s => Text.quoted s
  | .list items => inBrackets (literals items)
  | .map entries => inBraces (entryLiterals entries)
  | .stationary table => "StationaryModel(table=" ++ literal table ++ ")"
  | .timeVarying stages fallback =>
      "TimeVaryingModel(stages=" ++ literal stages ++ ", fallback=" ++ literal fallback ++ ")"

def literals : List (Value α) → List String
  | [] => []
  | v :: vs => literal v :: literals vs

def entryLiterals : Entries α → List String
  | [] => []
  | (k, v) :: es => (k.literal ++ ": " ++ literal v) :: entryLiterals es

end

def display : Value α → String
  | .text s => s
  | v => v.literal

end Value

end BackwardInduction
