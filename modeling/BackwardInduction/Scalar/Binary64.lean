import BackwardInduction.Scalar
import BackwardInduction.Decimal.Numeral
import BackwardInduction.Decimal.Shortest
import BackwardInduction.Decimal.Notation

/-!
Doubles as an arithmetic. A double is written with the fewest digits that read
back as it, and a numeral is read as the nearest double.
-/

namespace BackwardInduction

namespace Binary64

def infinity : Float :=
  Float.ofBits 0x7FF0000000000000

def nan : Float :=
  Float.ofBits 0x7FF8000000000000

def signed (negative : Bool) (x : Float) : Float :=
  if negative then -x else x

def isNegative (x : Float) : Bool :=
  x.toBits.toNat >>> 63 == 1

/-- Significand and exponent of a finite double: its size is `m · 2 ^ q`. -/
def parts (x : Float) : Nat × Int :=
  let bits := x.toBits.toNat
  let fraction : Nat := bits % (1 <<< 52)
  let exponent : Nat := (bits >>> 52) % (1 <<< 11)
  if exponent = 0 then (fraction, -1074) else (fraction + (1 <<< 52), (exponent : Int) - 1075)

/-- Just above a power of two the doubles below are twice as dense, except at the bottom
of the range. -/
def isNarrow (m : Nat) (q : Int) : Bool :=
  m == 1 <<< 52 && -1074 < q

def sizeText (x : Float) : String :=
  let (m, q) := parts x
  if m = 0 then "0.0"
  else
    let (n, k) := Decimal.shortest m q (isNarrow m q)
    Decimal.written n k

def text (x : Float) : String :=
  if x.isNaN then "nan"
  else
    (if isNegative x then "-" else "") ++ (if x.isFinite then sizeText x else "inf")

/-- The nearest double. Decimals far outside the range are settled by their length. -/
def ofDecimal (d : Decimal) : Float :=
  let length : Int := d.digits.log2 / 3 + 1
  signed d.negative <|
    if d.digits = 0 || d.exponent + length < -400 then 0
    else if 400 < d.exponent then infinity
    else if d.exponent < 0 then Float.ofScientific d.digits true d.exponent.natAbs
    else Float.ofScientific d.digits false d.exponent.natAbs

def ofNumeral : Numeral → Float
  | .nan => nan
  | .infinity negative => signed negative infinity
  | .decimal d => ofDecimal d

def ofInt? (i : Int) : Option Float :=
  let x := ofDecimal ⟨i < 0, i.natAbs, 0⟩
  if x.isFinite then some x else none

def toInt? (x : Float) : Option Int :=
  if x.isFinite then
    let (m, q) := parts x
    let down : Nat := 1 <<< (-q).toNat
    if m % down = 0 then
      some (Numeral.applySign (isNegative x) ((m <<< q.toNat) / down))
    else none
  else none

end Binary64

instance : Scalar Float where
  zero := 0
  one := 1
  natCast := Float.ofNat
  decLt := inferInstance
  decLe := inferInstance
  infinity? := some Binary64.infinity
  isNaN := Float.isNaN
  isFinite := Float.isFinite
  ofInt? := Binary64.ofInt?
  toInt? := Binary64.toInt?
  text := Binary64.text
  ofText? s := (Numeral.read? s).map Binary64.ofNumeral

end BackwardInduction
