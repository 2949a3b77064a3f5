/-!
What can be wrong with a JSON text, and where. Places count characters; a line
ends with a line feed.
-/

namespace BackwardInduction.Json

inductive Complaint where
  | byteOrderMark
  | noValue
  | noName
  | noColon
  | noComma
  | extraText
  | openText
  | controlCharacter
  | badEscape
  | badCodeEscape
  | loneSurrogate
deriving DecidableEq

def Complaint.text : Complaint → String
  | .byteOrderMark => "Unexpected UTF-8 BOM (decode using utf-8-sig)"
  | .noValue => "Expecting value"
  | .noName => "Expecting property name enclosed in double quotes"
  | .noColon => "Expecting ':' delimiter"
  | .noComma => "Expecting ',' delimiter"
  | .extraText => "Extra data"
  | .openText => "Unterminated string starting at"
  | .controlCharacter => "Invalid control character at"
  | .badEscape => "Invalid \\escape"
  | .badCodeEscape => "Invalid \\uXXXX escape"
  | .loneSurrogate => "Lone surrogate in string starting at"

structure SyntaxFault where
  complaint : Complaint
  line : Nat
  column : Nat
  offset : Nat
deriving DecidableEq

def SyntaxFault.text (f : SyntaxFault) : String :=
  s!"{f.complaint.text}: line {f.line} column {f.column} (char {f.offset})"

/-- Places a complaint before the last `left` characters of a text. -/
def SyntaxFault.locate (text : List Char) (complaint : Complaint) (left : Nat) : SyntaxFault :=
  let offset := text.length - left
  let before := text.take offset
  { complaint
    line := before.count '\n' + 1
    column := (before.reverse.takeWhile (· != '\n')).length + 1
    offset }

end BackwardInduction.Json
