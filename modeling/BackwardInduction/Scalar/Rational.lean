import BackwardInduction.Decimal.Numeral
import BackwardInduction.Scalar

/-!
Exact fractions as an arithmetic. There is no infinity and nothing that is no
number; a numeral is read as the number it denotes.
-/

namespace BackwardInduction

namespace Rational

def ofDecimal (d : Decimal) : Rat :=
  (Numeral.applySign d.negative d.digits : Rat) * (10 : Rat) ^ d.exponent

def ofNumeral? : Numeral → Option Rat
  | .decimal d => some (ofDecimal d)
  | .nan | .infinity _ => none

def toInt? (x : Rat) : Option Int :=
  if x.den = 1 then some x.num else none

end Rational

instance : Scalar Rat where
  zero := 0
  one := 1
  decLt := inferInstance
  decLe := inferInstance
  infinity? := none
  isNaN _ := false
  isFinite _ := true
  ofInt? i := some i
  toInt? := Rational.toInt?
  text := toString
  ofText? s := (Numeral.read? s).bind Rational.ofNumeral?

end BackwardInduction
