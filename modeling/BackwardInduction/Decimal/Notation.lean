/-!
How a decimal is written: with a point and at least one digit on either side of
it, or with an exponent of a sign and at least two digits. The exponent is used
below `10 ^ -4` and from `10 ^ 16` on.
-/

namespace BackwardInduction.Decimal

def positionalFrom : Int := -4

def positionalBelow : Int := 16

def zeroDigits (n : Int) : String :=
  String.ofList (List.replicate n.toNat '0')

def exponentText (e : Int) : String :=
  let digits := toString e.natAbs
  (if e < 0 then "e-" else "e+") ++ (if digits.length < 2 then "0" ++ digits else digits)

/-- Writes `n · 10 ^ k`, where `n` is not zero and not divisible by ten. -/
def written (n : Nat) (k : Int) : String :=
  let digits := toString n
  let length : Int := digits.length
  let leading := k + length - 1
  if leading < positionalFrom || positionalBelow ≤ leading then
    match digits.toList with
    | [] => ""
    | [d] => String.ofList [d] ++ exponentText leading
    | d :: ds => String.ofList (d :: '.' :: ds) ++ exponentText leading
  else if leading < 0 then "0." ++ zeroDigits (-leading - 1) ++ digits
  else if 0 ≤ k then digits ++ zeroDigits k ++ ".0"
  else
    let cs := digits.toList
    let whole := (length + k).toNat
    String.ofList (cs.take whole ++ '.' :: cs.drop whole)

end BackwardInduction.Decimal
