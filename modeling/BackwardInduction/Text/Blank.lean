/-!
White space and the text between it. The characters are those of the Unicode
white space property together with the four information separators.
-/

namespace BackwardInduction.Text

def isBlank (c : Char) : Bool :=
  let n := c.toNat
  (9 ≤ n && n ≤ 13) || (28 ≤ n && n ≤ 32) || n == 0x85 || n == 0xA0 || n == 0x1680 ||
    (0x2000 ≤ n && n ≤ 0x200A) || n == 0x2028 || n == 0x2029 || n == 0x202F || n == 0x205F ||
    n == 0x3000

/-- Drops the characters of the class `p` at both ends. -/
def strip (p : Char → Bool) (cs : List Char) : List Char :=
  ((cs.dropWhile p).reverse.dropWhile p).reverse

def trim (s : String) : String :=
  String.ofList (strip isBlank s.toList)

/-- The pieces between the separators: always one more than there are separators. -/
def pieces (sep : Char) : List Char → List (List Char)
  | [] => [[]]
  | c :: cs =>
      if c = sep then [] :: pieces sep cs
      else
        match pieces sep cs with
        | [] => [[c]]
        | p :: ps => (c :: p) :: ps

/-- The names of a comma-separated list, trimmed, without the blank ones. -/
def names (s : String) : List String :=
  (((pieces ',' s.toList).map (strip isBlank)).filter (!·.isEmpty)).map String.ofList

end BackwardInduction.Text
