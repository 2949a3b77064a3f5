import BackwardInduction.Text.Blank
import BackwardInduction.Text.Digit

/-!
Numerals in text. Digits of every script count, white space around a numeral is
dropped, and a single underscore may stand between two digits. A whole numeral
has at most `digitLimit` digits, leading zeros included.
-/

namespace BackwardInduction

open Text

/-- The number `± digits · 10 ^ exponent`. -/
structure Decimal where
  negative : Bool
  digits : Nat
  exponent : Int
deriving DecidableEq

inductive Numeral where
  | nan
  | infinity (negative : Bool)
  | decimal (d : Decimal)
deriving DecidableEq

inductive NumeralFault where
  | malformed
  | tooLong (digits : Nat)
deriving DecidableEq

namespace Numeral

def digitLimit : Nat := 4300

/-- White space around a numeral: the separators among the ASCII controls are not it. -/
def isPadding (c : Char) : Bool :=
  isBlank c && !(28 ≤ c.toNat && c.toNat ≤ 31)

/-- A digit of another script becomes the ASCII digit of its value. -/
def plainDigit (c : Char) : Char :=
  match digitValue? c with
  | some n => digitChar n
  | none => c

def plain (s : String) : List Char :=
  strip isPadding (s.toList.map plainDigit)

/-- Drops the underscores, each of which must stand between two digits; `before` is
the character before the text. -/
def ungroup? (before : Char) : List Char → Option (List Char)
  | [] => if before = '_' then none else some []
  | c :: cs =>
      if c = '_' then
        if isDigit before then ungroup? c cs else none
      else if before = '_' && !isDigit c then none
      else (ungroup? c cs).map (c :: ·)

def takeSign : List Char → Bool × List Char
  | '-' :: cs => (true, cs)
  | '+' :: cs => (false, cs)
  | cs => (false, cs)

def applySign (negative : Bool) (n : Nat) : Int :=
  if negative then -(n : Int) else n

/-- Reads a whole number. The limit is looked at before what follows the digits. -/
def readWhole (s : String) : Except NumeralFault Int :=
  let (negative, cs) := takeSign (plain s)
  let (run, rest) := cs.span fun c => isDigit c || c = '_'
  match ungroup? ' ' run with
  | none => .error .malformed
  | some digits =>
      if digitLimit < digits.length then .error (.tooLong digits.length)
      else if digits.isEmpty || !rest.isEmpty then .error .malformed
      else .ok (applySign negative (digitsValue digits))

/-- The part after the digits: empty, or an exponent. -/
def readExponent? : List Char → Option Int
  | [] => some 0
  | c :: cs =>
      if c = 'e' || c = 'E' then
        let (negative, digits) := takeSign cs
        if digits.isEmpty || !digits.all isDigit then none
        else some (applySign negative (digitsValue digits))
      else none

def readDecimal? (negative : Bool) (cs : List Char) : Option Decimal :=
  let (whole, rest) := cs.span isDigit
  let (fraction, rest) :=
    match rest with
    | '.' :: rest => rest.span isDigit
    | rest => ([], rest)
  if whole.isEmpty && fraction.isEmpty then none
  else
    (readExponent? rest).map fun e =>
      ⟨negative, digitsValue (whole ++ fraction), e - fraction.length⟩

def readUnsigned? (negative : Bool) (cs : List Char) : Option Numeral :=
  let word := cs.map Char.toLower
  if word = "inf".toList || word = "infinity".toList then some (.infinity negative)
  else if word = "nan".toList then some .nan
  else (readDecimal? negative cs).map .decimal

def read? (s : String) : Option Numeral := do
  let cs ← ungroup? ' ' (plain s)
  let (negative, cs) := takeSign cs
  readUnsigned? negative cs

end Numeral

end BackwardInduction
