/-!
Shortest decimals. Of the decimals inside an interval around a positive number,
`shortest` takes one with the fewest digits and, of two such, the nearer one.
-/

namespace BackwardInduction.Decimal

/-- A positive fraction together with the bounds of the numbers that stand for it. All
three have the denominator `den`; `closed` tells whether the bounds belong. -/
structure Interval where
  low : Nat
  num : Nat
  high : Nat
  den : Nat
  closed : Bool

namespace Interval

/-- Numerators at denominator `den · a`, for the grid of the multiples of `a / b`. -/
def scale (i : Interval) (b : Nat) : Interval :=
  { i with low := i.low * b, num := i.num * b, high := i.high * b }

def holds (i : Interval) (n : Nat) : Bool :=
  if i.closed then i.low ≤ n && n ≤ i.high else i.low < n && n < i.high

/-- The neighbour of the number on the grid of the multiples of `10 ^ k` that lies in the
interval; of two, the nearer, and at equal distance the even one. -/
def onGrid? (i : Interval) (k : Int) : Option Nat :=
  let i := i.scale (Nat.pow 10 (-k).toNat)
  let unit := i.den * Nat.pow 10 k.toNat
  let below := i.num / unit
  let above := below + 1
  match i.holds (below * unit), i.holds (above * unit) with
  | false, false => none
  | true, false => some below
  | false, true => some above
  | true, true =>
      let down := i.num - below * unit
      let up := above * unit - i.num
      if down < up then some below
      else if up < down then some above
      else if below % 2 = 0 then some below
      else some above

/-- Tries the grid of `10 ^ k` and, while none fits, the next finer one. -/
def search (i : Interval) : (steps : Nat) → Int → Nat × Int
  | 0, k => (0, k)
  | steps + 1, k =>
      match i.onGrid? k with
      | some n => (n, k)
      | none => search i steps (k - 1)

end Interval

/-- The interval of the reals that round to `m · 2 ^ q`. The gap below is half as wide
where `narrow` is set; the ends belong to it exactly if `m` is even. -/
def roundingInterval (m : Nat) (q : Int) (narrow : Bool) : Interval :=
  let up : Nat := 1 <<< (q - 2).toNat
  { low := (4 * m - if narrow then 1 else 2) * up
    num := 4 * m * up
    high := (4 * m + 2) * up
    den := 1 <<< (2 - q).toNat
    closed := m % 2 == 0 }

/-- Digits `n` and exponent `k` of the shortest decimal `n · 10 ^ k` for `m · 2 ^ q`. The
search starts at a power of ten above the number, found from its binary length. -/
def shortest (m : Nat) (q : Int) (narrow : Bool) : Nat × Int :=
  let start := Int.fdiv ((m.log2 + q + 1) * 30103) 100000 + 1
  (roundingInterval m q narrow).search 24 start

end BackwardInduction.Decimal
