import CssSyntax.Decimal.Binary64

/-! The shortest decimal of a floating-point number: the fewest digits that lie nearer to it than
to its neighbours, and of those the nearest. -/

namespace CssSyntax.Decimal

/-- `digits * 10 ^ exponent`. -/
structure Grid where
  digits : Nat
  exponent : Int
deriving DecidableEq, Repr

/-- The reals that round to a number, as quarters of its last place. The ends round to it too if
its mantissa is even. -/
structure Interval where
  low : Nat
  middle : Nat
  high : Nat
  exponent : Int
  closed : Bool

def Interval.ofNumber (number : Binary64) : Interval :=
  let middle := 4 * number.mantissa
  let isPower := number.mantissa = Binary64.leastFull ∧ Binary64.leastExponent < number.exponent
  { low := if isPower then middle - 1 else middle - 2
    middle
    high := middle + 2
    exponent := number.exponent - 2
    closed := number.mantissa % 2 == 0 }

/-- `number * 2 ^ two / 10 ^ ten` as dividend and divisor. -/
def ratio (number : Nat) (two ten : Int) : Nat × Nat :=
  (number * Binary64.twos two * Binary64.tens (-ten), Binary64.twos (-two) * Binary64.tens ten)

/-- True if `digits * 10 ^ ten` lies in the interval. -/
def Interval.holds (interval : Interval) (digits : Nat) (ten : Int) : Bool :=
  let (low, bottom) := ratio interval.low interval.exponent ten
  let (high, _) := ratio interval.high interval.exponent ten
  let point := digits * bottom
  if interval.closed then low ≤ point && point ≤ high else low < point && point < high

/-- The point of the grid of `10 ^ ten` in the interval that is nearest to its middle. Of two
equally near ones the even one is taken. -/
def Interval.nearest? (interval : Interval) (ten : Int) : Option Grid :=
  let (middle, bottom) := ratio interval.middle interval.exponent ten
  let below := middle / bottom
  let twice := 2 * (middle % bottom)
  let preferBelow := twice < bottom || (twice == bottom && below % 2 == 0)
  let (first, second) := if preferBelow then (below, below + 1) else (below + 1, below)
  if interval.holds first ten then some ⟨first, ten⟩
  else if interval.holds second ten then some ⟨second, ten⟩
  else none

/-- The grid that is too coarse for the number by a digit or two. -/
def Interval.topGrid (interval : Interval) : Int :=
  ((interval.high.log2 : Int) + interval.exponent) * 30103 / 100000 + 2

/-- Seventeen digits tell any two numbers apart, so a grid a few steps finer has a point. -/
def shortest (number : Binary64) : Grid :=
  let interval := Interval.ofNumber number
  ((List.range 24).findSome? fun (step : Nat) =>
    interval.nearest? (interval.topGrid - step)).getD ⟨0, 0⟩

end CssSyntax.Decimal
