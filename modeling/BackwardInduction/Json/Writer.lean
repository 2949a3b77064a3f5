import BackwardInduction.Decimal.Numeral
import BackwardInduction.Value
import BackwardInduction.Text.Digit
import BackwardInduction.Value.Literal

/-!
Writing JSON: two spaces of indentation a level, a line for each item and member,
and ASCII only, with other characters as the codes of their UTF-16 units. No whole number with
more digits than the limit is written.
-/

namespace BackwardInduction.Json

open Text

def codeEscape (n : Nat) : List Char :=
  '\\' :: 'u' :: hex 4 n

def escape (c : Char) : List Char :=
  let n := c.toNat
  if c = '"' || c = '\\' then ['\\', c]
  else if c = '\n' then ['\\', 'n']
  else if c = '\r' then ['\\', 'r']
  else if c = '\t' then ['\\', 't']
  else if n = 8 then ['\\', 'b']
  else if n = 12 then ['\\', 'f']
  else if 32 ≤ n && n ≤ 126 then [c]
  else if n < 0x10000 then codeEscape n
  else
    codeEscape (0xD800 + (n - 0x10000) / 0x400) ++ codeEscape (0xDC00 + (n - 0x10000) % 0x400)

def writeText (s : String) : List Char :=
  '"' :: s.toList.flatMap escape ++ ['"']

variable {α : Type} [Scalar α]

def writeNumber : Number α → List Char
  | .whole i => (toString i).toList
  | .real x =>
      if Scalar.isNaN x then "NaN".toList
      else if Scalar.isFinite x then (Scalar.text x).toList
      else if 0 < x then "Infinity".toList
      else "-Infinity".toList

def boolWord (b : Bool) : List Char :=
  if b then "true".toList else "false".toList

/-- Names of members are texts; another key is named by what it would be as a value. -/
def writeName : Key α → List Char
  | .null => writeText "null"
  | .bool b => '"' :: boolWord b ++ ['"']
  | .number n => '"' :: writeNumber n ++ ['"']
  | .text s => writeText s

def newLine (depth : Nat) : List Char :=
  '\n' :: List.replicate (2 * depth) ' '

/-- Puts the parts on lines of their own between the brackets. -/
def block (opening closing : Char) (depth : Nat) (parts : List (List Char)) : List Char :=
  match parts with
  | [] => [opening, closing]
  | p :: ps =>
      opening :: newLine (depth + 1) ++ p ++
        ps.flatMap (fun p => ',' :: newLine (depth + 1) ++ p) ++ newLine depth ++ [closing]

mutual

def writeValue (depth : Nat) : Value α → List Char
  | .null => "null".toList
  | .bool b => boolWord b
  | .number n => writeNumber n
  | .text s => writeText s
  | .list items => block '[' ']' depth (writeItems (depth + 1) items)
  | .map entries => block '{' '}' depth (writeMembers (depth + 1) entries)
  | .stationary table => writeValue depth table
  | .timeVarying stages _ => writeValue depth stages

def writeItems (depth : Nat) : List (Value α) → List (List Char)
  | [] => []
  | v :: vs => writeValue depth v :: writeItems depth vs

def writeMembers (depth : Nat) : Entries α → List (List Char)
  | [] => []
  | (k, v) :: es => (writeName k ++ ':' :: ' ' :: writeValue depth v) :: writeMembers depth es

end

/-- The text of a file that holds the value: it ends with a line feed. -/
def fileText (v : Value α) : String :=
  String.ofList (writeValue 0 v ++ ['\n'])

/-- Whether the value is a whole number with more digits than are written. -/
def isOverlong : Value α → Bool
  | .number (.whole i) => decide (Numeral.digitLimit < (Nat.toDigits 10 i.natAbs).length)
  | _ => false

/-- An object with an overlong number among its members is written up to the place of the first
such number. -/
def brokenText? : Value α → Option String
  | .map entries =>
      (entries.find? fun e => isOverlong e.2).map fun e =>
        let before := writeMembers 1 (entries.takeWhile fun e => !isOverlong e.2)
        String.ofList ('{' :: newLine 1 ++ before.flatMap (· ++ ',' :: newLine 1) ++
          writeName e.1 ++ [':', ' '])
  | _ => none

end BackwardInduction.Json
