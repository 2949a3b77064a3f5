/-!
The arithmetic a decision problem is solved in. Nothing is assumed of the
operations; doubles are one instance and exact fractions another. An arithmetic
may or may not have an infinity, and may have numbers that compare with none.
-/

namespace BackwardInduction

class Scalar (α : Type) extends Zero α, One α, Add α, Mul α, Div α, LT α, LE α,
    NatCast α, OfScientific α where
  decLt : DecidableLT α
  decLe : DecidableLE α
  /-- The value above all others, where there is one. -/
  infinity? : Option α
  isNaN : α → Bool
  isFinite : α → Bool
  /-- The nearest number to a whole one; none beyond the range of the arithmetic. -/
  ofInt? : Int → Option α
  /-- The whole number this equals, if it is whole. -/
  toInt? : α → Option Int
  text : α → String
  /-- Reads a decimal numeral, or one of the words for an infinity or a NaN. -/
  ofText? : String → Option α

namespace Scalar

variable {α : Type} [Scalar α]

instance : DecidableLT α := decLt

instance : DecidableLE α := decLe

/-- Every number of an arithmetic without an infinity is below infinity. -/
def belowInfinity (x : α) : Bool :=
  match (infinity? : Option α) with
  | some top => decide (x < top)
  | none => true

/-- Infinity, or zero where there is none and the value is never asked for. -/
def infinityOrZero : α :=
  (infinity? : Option α).getD 0

/-- Addition from the left, starting at zero. -/
def sum (xs : List α) : α :=
  xs.foldl (· + ·) 0

end Scalar

end BackwardInduction
