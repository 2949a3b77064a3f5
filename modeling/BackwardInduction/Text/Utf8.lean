/-!
Decoding of UTF-8. A fault names the bytes that could not be read: the start of
the character they break off from, and the last byte that still belonged to it.
-/

namespace BackwardInduction.Text

inductive Utf8Cause where
  | badStart
  | badContinuation
  | cutShort
deriving DecidableEq

structure Utf8Fault where
  cause : Utf8Cause
  /-- Place of the first byte at fault. -/
  first : Nat
  /-- How many bytes are at fault. -/
  count : Nat
  /-- The first byte at fault. -/
  byte : Nat
deriving DecidableEq

/-- What may follow a leading byte: how many bytes, and the bounds of the next one,
which shut out overlong forms, surrogates and codes past the last. -/
def continuationsOf? (b : Nat) : Option (Nat × Nat × Nat) :=
  if b < 0x80 then some (0, 0, 0)
  else if b < 0xC2 then none
  else if b < 0xE0 then some (1, 0x80, 0xC0)
  else if b = 0xE0 then some (2, 0xA0, 0xC0)
  else if b = 0xED then some (2, 0x80, 0xA0)
  else if b < 0xF0 then some (2, 0x80, 0xC0)
  else if b = 0xF0 then some (3, 0x90, 0xC0)
  else if b < 0xF4 then some (3, 0x80, 0xC0)
  else if b = 0xF4 then some (3, 0x80, 0x90)
  else none

/-- Takes `need` continuation bytes, the first between the bounds, onto the code read
so far; a failure tells the cause and how many of them were good. -/
def takeContinuations : (need low high code good : Nat) → List Nat →
    Except (Utf8Cause × Nat) (Nat × List Nat)
  | 0, _, _, code, _, bs => .ok (code, bs)
  | _ + 1, _, _, _, good, [] => .error (.cutShort, good)
  | need + 1, low, high, code, good, b :: bs =>
      if low ≤ b && b < high then
        takeContinuations need 0x80 0xC0 (code * 64 + (b - 0x80)) (good + 1) bs
      else .error (.badContinuation, good)

/-- The bits of the code point that the leading byte holds. -/
def leadBits (b need : Nat) : Nat :=
  match need with
  | 0 => b
  | 1 => b - 0xC0
  | 2 => b - 0xE0
  | _ => b - 0xF0

/-- One character of the text, how many bytes it takes, and the bytes after it. -/
def decodeChar (b : Nat) (bs : List Nat) : Except (Utf8Cause × Nat) (Char × Nat × List Nat) :=
  match continuationsOf? b with
  | none => .error (.badStart, 0)
  | some (need, low, high) =>
      match takeContinuations need low high (leadBits b need) 0 bs with
      | .error e => .error e
      | .ok (code, rest) => .ok (Char.ofNat code, need + 1, rest)

/-- Decodes from place `pos` on, with at most `steps` characters to come. -/
def decodeFrom : (steps pos : Nat) → List Nat → Except Utf8Fault (List Char)
  | 0, _, _ => .ok []
  | _ + 1, _, [] => .ok []
  | steps + 1, pos, b :: bs =>
      match decodeChar b bs with
      | .error (cause, good) => .error ⟨cause, pos, good + 1, b⟩
      | .ok (c, size, rest) =>
          match decodeFrom steps (pos + size) rest with
          | .error e => .error e
          | .ok cs => .ok (c :: cs)

def decodeUtf8 (bytes : ByteArray) : Except Utf8Fault (List Char) :=
  decodeFrom bytes.size 0 (bytes.toList.map (·.toNat))

/-- Every way of ending a line becomes a line feed. -/
def unifyNewlines : List Char → List Char
  | [] => []
  | '\r' :: '\n' :: cs => '\n' :: unifyNewlines cs
  | '\r' :: cs => '\n' :: unifyNewlines cs
  | c :: cs => c :: unifyNewlines cs

def Utf8Cause.text : Utf8Cause → String
  | .badStart => "invalid start byte"
  | .badContinuation => "invalid continuation byte"
  | .cutShort => "unexpected end of data"

end BackwardInduction.Text
