import Realms.Number.Double

/-!
The shortest decimal of a finite double: the fewest significant digits that read back as the
double, and of these the decimal nearest to it, the upper one on an exact tie. Grids of one to
seventeen digits are tried in turn; on each grid only the two neighbours of the double matter,
and every comparison is between natural numbers.
-/

namespace Realms

/-- The positive decimal `coefficient * 10 ^ exponent`. -/
structure Decimal where
  coefficient : Nat
  exponent : Int
  deriving DecidableEq

namespace Decimal

/-- The number of digits of a natural number; zero has one. -/
def length (n : Nat) : Nat := (Nat.toDigits 10 n).length

/-- Trailing zeros of the coefficient move into the exponent. -/
def normalize (d : Decimal) : Decimal :=
  if h : d.coefficient ≠ 0 ∧ d.coefficient % 10 = 0 then
    normalize ⟨d.coefficient / 10, d.exponent + 1⟩
  else d
termination_by d.coefficient
decreasing_by omega

end Decimal

namespace Double

/-- The reals that round to a double, in quarters of the unit of its last place. Below a power of
two the gap is half as wide. The ends belong to the interval iff the significand is even. -/
structure Interval where
  low : Nat
  middle : Nat
  high : Nat
  closed : Bool
  scale : Int
  deriving DecidableEq

def interval (x : Double) : Interval :=
  let m := x.significand
  { low := if m = fractionSize then 4 * m - 1 else 4 * m - 2
    middle := 4 * m
    high := 4 * m + 2
    closed := m % 2 = 0
    scale := x.scale - 2 }

namespace Interval

/-- The denominator `a` and the multiplier `b` with which `c * 10 ^ p` compares to `n * 2 ^ scale`
as `c * a` compares to `n * b`. -/
def weights (i : Interval) (p : Int) : Nat × Nat :=
  (Nat.pow 10 p.toNat * Nat.pow 2 (-i.scale).toNat,
    Nat.pow 10 (-p).toNat * Nat.pow 2 i.scale.toNat)

/-- Whether the decimal `c * 10 ^ p` lies in the interval. -/
def contains (i : Interval) (c : Nat) (p : Int) : Bool :=
  let (a, b) := i.weights p
  if i.closed then i.low * b ≤ c * a && c * a ≤ i.high * b
  else i.low * b < c * a && c * a < i.high * b

/-- The exponent of the leading decimal digit of the middle. -/
def leadingExponent (i : Interval) : Int :=
  let (a, b) := i.weights 0
  let n := i.middle * b
  if a ≤ n then (Decimal.length (n / a) : Int) - 1 else -(Decimal.length ((a - 1) / n) : Int)

/-- The point of the grid `10 ^ p` that lies in the interval and is nearest to its middle, the
upper one on a tie. -/
def nearestOn (i : Interval) (p : Int) : Option Decimal :=
  let (a, b) := i.weights p
  let below := i.middle * b / a
  let remainder := i.middle * b % a
  let lowerHit := i.contains below p
  let upperHit := i.contains (below + 1) p
  if lowerHit && (!upperHit || 2 * remainder < a) then some ⟨below, p⟩
  else if upperHit then some ⟨below + 1, p⟩
  else none

/-- The first of `count` grids, each ten times finer than the one before, with a point in the
interval. -/
def search (i : Interval) (p : Int) : Nat → Option Decimal
  | 0 => none
  | count + 1 => (i.nearestOn p).orElse fun _ => i.search (p - 1) count

end Interval

/-- The shortest decimal that reads back as a finite nonzero double. Seventeen digits always
suffice, so the search does not fail. -/
def shortest (x : Double) : Decimal :=
  let i := x.interval
  ((i.search i.leadingExponent 17).getD ⟨x.significand, 0⟩).normalize

end Double

end Realms
