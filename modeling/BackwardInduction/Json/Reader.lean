import BackwardInduction.Value
import BackwardInduction.Decimal.Numeral
import BackwardInduction.Json.Complaint

/-!
Reading JSON. A number without fraction and exponent is a whole number of any
size up to the digit limit, any other one of the arithmetic, whose words for the
infinities and for what is no number are read as well. Of an object's members
with one name the last counts, at the place of the first. A text with a surrogate
outside a pair is no sequence of characters and is not read.
-/

namespace BackwardInduction.Json

open Text

/-- Why reading stopped: a complaint with the count of characters left, or a whole number
that is too long. -/
inductive Stop where
  | complaint (c : Complaint) (left : Nat)
  | tooLong (digits : Nat)
deriving DecidableEq

def isSpace (c : Char) : Bool :=
  c = ' ' || c = '\t' || c = '\n' || c = '\r'

def skip (cs : List Char) : List Char :=
  cs.dropWhile isSpace

/-- What follows the word at the start of the text. -/
def after? (word : String) (cs : List Char) : Option (List Char) :=
  if word.toList.isPrefixOf cs then some (cs.drop word.toList.length) else none

section Texts

/-- The code of four hexadecimal digits. -/
def codeOf? (a b c d : Char) : Option Nat := do
  let a ← hexValue? a
  let b ← hexValue? b
  let c ← hexValue? c
  let d ← hexValue? d
  return ((a * 16 + b) * 16 + c) * 16 + d

/-- The character of a one-letter escape. -/
def escaped? (c : Char) : Option Char :=
  if c = '"' || c = '\\' || c = '/' then some c
  else if c = 'b' then some '\x08'
  else if c = 'f' then some '\x0c'
  else if c = 'n' then some '\n'
  else if c = 'r' then some '\r'
  else if c = 't' then some '\t'
  else none

/-- Reads up to the closing quote, as codes: an escape may give half of a surrogate pair.
Fails with nothing if there is no closing quote. -/
def readCodes : List Char → Except (Option Stop) (List Nat × List Char)
  | [] => .error none
  | c :: cs =>
      if c = '"' then .ok ([], cs)
      else if c = '\\' then
        match cs with
        | [] => .error none
        | e :: es =>
            if e = 'u' then
              match es with
              | h :: i :: j :: k :: rest =>
                  match codeOf? h i j k, rest with
                  | some code, _ :: _ => do
                      let (codes, rest) ← readCodes rest
                      .ok (code :: codes, rest)
                  | _, _ => .error (some (.complaint .badCodeEscape (es.length + 1)))
              | _ => .error (some (.complaint .badCodeEscape (es.length + 1)))
            else
              match escaped? e with
              | some c => do
                  let (codes, rest) ← readCodes es
                  .ok (c.toNat :: codes, rest)
              | none => .error (some (.complaint .badEscape (es.length + 2)))
      else if c.toNat < 32 then .error (some (.complaint .controlCharacter (cs.length + 1)))
      else do
        let (codes, rest) ← readCodes cs
        .ok (c.toNat :: codes, rest)

def isHighSurrogate (n : Nat) : Bool :=
  0xD800 ≤ n && n < 0xDC00

def isLowSurrogate (n : Nat) : Bool :=
  0xDC00 ≤ n && n < 0xE000

/-- The character of a code. A surrogate is none. -/
def ofCode? (n : Nat) : Option Char :=
  if isHighSurrogate n || isLowSurrogate n then none else some (Char.ofNat n)

/-- The characters of codes in which surrogate pairs stand for one. A surrogate that stands alone
is no character, so that there are none for codes with one. -/
def joinCodes : List Nat → Option (List Char)
  | [] => some []
  | [n] => (ofCode? n).map fun c => [c]
  | n :: m :: ns =>
      if isHighSurrogate n && isLowSurrogate m then
        (joinCodes ns).map (Char.ofNat (0x10000 + (n - 0xD800) * 0x400 + (m - 0xDC00)) :: ·)
      else
        match ofCode? n with
        | some c => (joinCodes (m :: ns)).map (c :: ·)
        | none => none

/-- Reads a text whose opening quote is already taken. One without an end is complained of
at its opening quote, and so is one with a lone surrogate. -/
def readText (cs : List Char) : Except Stop (String × List Char) :=
  match readCodes cs with
  | .ok (codes, rest) =>
      match joinCodes codes with
      | some text => .ok (String.ofList text, rest)
      | none => .error (.complaint .loneSurrogate (cs.length + 1))
  | .error (some e) => .error e
  | .error none => .error (.complaint .openText (cs.length + 1))

end Texts

section Numbers

/-- The spelling of a number: its whole part with the sign, and fraction and exponent. -/
structure Spelling where
  whole : List Char
  fraction : List Char
  exponent : List Char
deriving DecidableEq

def spellWhole? (cs : List Char) : Option (List Char × List Char) :=
  match cs with
  | [] => none
  | c :: rest =>
      if c = '0' then some ([c], rest)
      else if isDigit c then some (cs.span isDigit)
      else none

/-- The sign and the whole part, which has no needless zero in front. -/
def spellSigned? (cs : List Char) : Option (List Char × List Char) :=
  match cs with
  | '-' :: rest => (spellWhole? rest).map fun (digits, rest) => ('-' :: digits, rest)
  | _ => spellWhole? cs

/-- A point counts only with a digit after it. -/
def spellFraction (cs : List Char) : List Char × List Char :=
  match cs with
  | '.' :: rest =>
      let (digits, rest') := rest.span isDigit
      if digits.isEmpty then ([], cs) else ('.' :: digits, rest')
  | _ => ([], cs)

/-- The mark of an exponent counts only with a digit after it and its sign. -/
def spellExponent (cs : List Char) : List Char × List Char :=
  match cs with
  | e :: rest =>
      if e = 'e' || e = 'E' then
        let (sign, rest) :=
          match rest with
          | s :: rest' => if s = '+' || s = '-' then ([s], rest') else ([], rest)
          | [] => ([], rest)
        let (digits, rest) := rest.span isDigit
        if digits.isEmpty then ([], cs) else (e :: sign ++ digits, rest)
      else ([], cs)
  | [] => ([], cs)

def spell? (cs : List Char) : Option (Spelling × List Char) := do
  let (whole, rest) ← spellSigned? cs
  let (fraction, rest) := spellFraction rest
  let (exponent, rest) := spellExponent rest
  return (⟨whole, fraction, exponent⟩, rest)

def wholeOf (cs : List Char) : Except Stop Int :=
  let (negative, digits) := Numeral.takeSign cs
  if Numeral.digitLimit < digits.length then .error (.tooLong digits.length)
  else .ok (Numeral.applySign negative (digitsValue digits))

end Numbers

variable {α : Type} [Scalar α]

/-- Reads a word or a number. -/
def readAtom (cs : List Char) : Except Stop (Value α × List Char) :=
  let noValue : Except Stop (Value α × List Char) := .error (.complaint .noValue cs.length)
  let real (text : String) (rest : List Char) : Except Stop (Value α × List Char) :=
    match Scalar.ofText? text with
    | some x => .ok (.number (.real x), rest)
    | none => noValue
  match after? "null" cs, after? "true" cs, after? "false" cs with
  | some rest, _, _ => .ok (.null, rest)
  | _, some rest, _ => .ok (.bool true, rest)
  | _, _, some rest => .ok (.bool false, rest)
  | none, none, none =>
      match ["NaN", "Infinity", "-Infinity"].findSome? fun w => (after? w cs).map (w, ·) with
      | some (word, rest) => real word rest
      | none =>
          match spell? cs with
          | none => noValue
          | some (s, rest) =>
              if s.fraction.isEmpty && s.exponent.isEmpty then do
                return (.number (.whole (← wholeOf s.whole)), rest)
              else real (String.ofList (s.whole ++ s.fraction ++ s.exponent)) rest

mutual

/-- Reads a value at the start of the text. -/
def readValue : (fuel : Nat) → List Char → Except Stop (Value α × List Char)
  | 0, cs => .error (.complaint .noValue cs.length)
  | fuel + 1, cs =>
      match cs with
      | '"' :: rest => do
          let (s, rest) ← readText rest
          return (.text s, rest)
      | '[' :: rest =>
          match skip rest with
          | ']' :: rest => return (.list [], rest)
          | rest => do
              let (items, rest) ← readItems fuel rest
              return (.list items, rest)
      | '{' :: rest =>
          match skip rest with
          | '}' :: rest => return (.map [], rest)
          | rest => do
              let (entries, rest) ← readMembers fuel [] rest
              return (.map entries, rest)
      | cs => readAtom cs

/-- Reads the items of a list up to its end, of which there is at least one. -/
def readItems : (fuel : Nat) → List Char → Except Stop (List (Value α) × List Char)
  | 0, cs => .error (.complaint .noValue cs.length)
  | fuel + 1, cs => do
      let (v, rest) ← readValue fuel cs
      match skip rest with
      | ']' :: rest => return ([v], rest)
      | ',' :: rest =>
          let (vs, rest) ← readItems fuel (skip rest)
          return (v :: vs, rest)
      | rest => .error (.complaint .noComma rest.length)

/-- Reads the members of an object up to its end, of which there is at least one, and
writes them over those read before. -/
def readMembers : (fuel : Nat) → Entries α → List Char →
    Except Stop (Entries α × List Char)
  | 0, _, cs => .error (.complaint .noValue cs.length)
  | fuel + 1, entries, cs =>
      match cs with
      | '"' :: rest => do
          let (name, rest) ← readText rest
          match skip rest with
          | ':' :: rest =>
              let (v, rest) ← readValue fuel (skip rest)
              let entries := entries.set name v
              match skip rest with
              | '}' :: rest => return (entries, rest)
              | ',' :: rest => readMembers fuel entries (skip rest)
              | rest => .error (.complaint .noComma rest.length)
          | rest => .error (.complaint .noColon rest.length)
      | cs => .error (.complaint .noName cs.length)

end

/-- Reads a text that is one value with white space around it. The fuel suffices, as each
level and each item of a value takes a character. -/
def readAll (cs : List Char) : Except Stop (Value α) := do
  match cs with
  | '\uFEFF' :: _ => .error (.complaint .byteOrderMark cs.length)
  | _ =>
      let (v, rest) ← readValue (2 * cs.length + 1) (skip cs)
      match skip rest with
      | [] => return v
      | rest => .error (.complaint .extraText rest.length)

end BackwardInduction.Json
