/-!
Double-precision binary numbers as exact data. A number is its 64-bit word; the fields of the word
give a sign, a natural significand and a power of two, and all arithmetic on them is exact. The one
rounding function takes an integer to a nearest double, to the even one of two equally near.
-/

namespace Realms

/-- A double-precision number, as the word that stores it. -/
structure Double where
  bits : UInt64
  deriving DecidableEq

namespace Double

/-- The number of fractions, which fill 52 bits. -/
def fractionSize : Nat := Nat.pow 2 52

/-- The weight of the sign bit, which stands above the 11 bits of the exponent. -/
def signWeight : Nat := Nat.pow 2 63

def fraction (x : Double) : Nat := x.bits.toNat % fractionSize

/-- The biased exponent. -/
def exponentField (x : Double) : Nat := x.bits.toNat / fractionSize % 2048

def isNegative (x : Double) : Bool := decide (signWeight ≤ x.bits.toNat)

def isNaN (x : Double) : Bool := x.exponentField == 2047 && x.fraction != 0

def isInfinite (x : Double) : Bool := x.exponentField == 2047 && x.fraction == 0

/-- Both zeros. -/
def isZero (x : Double) : Bool := x.exponentField == 0 && x.fraction == 0

/-- The natural number whose product with two to the power `scale` is the magnitude of a finite
double; the leading bit is implicit unless the exponent field is zero. -/
def significand (x : Double) : Nat :=
  if x.exponentField = 0 then x.fraction else fractionSize + x.fraction

def scale (x : Double) : Int :=
  if x.exponentField = 0 then -1074 else (x.exponentField : Int) - 1075

/-- The word of a magnitude: the significand is rounded to 53 bits, to the even one on a tie. A
significand that rounds up to the next power of two carries into the exponent field. -/
def magnitudeBits (n : Nat) : Nat :=
  if n = 0 then 0
  else
    let e := n.log2
    let rounded :=
      if e ≤ 52 then n * Nat.pow 2 (52 - e)
      else
        let unit := Nat.pow 2 (e - 52)
        let q := n / unit
        let r := n % unit
        if unit < 2 * r ∨ (2 * r = unit ∧ q % 2 = 1) then q + 1 else q
    min ((e + 1022) * fractionSize + rounded) (2047 * fractionSize)

/-- A double nearest to an integer, the even one of two equally near. -/
def ofInt (n : Int) : Double :=
  ⟨.ofNat ((if n < 0 then signWeight else 0) + magnitudeBits n.natAbs)⟩

end Double

end Realms
