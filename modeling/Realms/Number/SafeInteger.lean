import Realms.Number.Double

/-!
Safe integers: those that a double holds exactly together with their neighbours.
-/

namespace Realms

/-- A 32-bit integer of the given value, if there is one. -/
def int32? (n : Int) : Option Int32 :=
  if -2147483648 ≤ n ∧ n < 2147483648 then some (.ofInt n) else none

/-- The largest safe integer, one less than the fifty-third power of two. -/
def maxSafe : Int := 9007199254740991

/-- The smallest safe integer. -/
def minSafe : Int := -maxSafe

/-- An integer between the smallest and the largest safe one. -/
structure SafeInteger where
  val : Int
  min_le : minSafe ≤ val
  le_max : val ≤ maxSafe
  deriving DecidableEq

namespace SafeInteger

def ofInt? (n : Int) : Option SafeInteger :=
  if h : minSafe ≤ n ∧ n ≤ maxSafe then some ⟨n, h.1, h.2⟩ else none

/-- Every 32-bit integer is safe. -/
def ofInt32 (n : Int32) : SafeInteger :=
  ⟨n.toInt, by have := n.le_toInt; simp only [minSafe, maxSafe]; omega,
    by have := n.toInt_lt; simp only [maxSafe]; omega⟩

def max : SafeInteger := ⟨maxSafe, by decide, by decide⟩

def min : SafeInteger := ⟨minSafe, by decide, by decide⟩

/-- The double of the same value. -/
def toDouble (n : SafeInteger) : Double := .ofInt n.val

def compare (a b : SafeInteger) : Ordering := Ord.compare a.val b.val

def text (n : SafeInteger) : String := toString n.val

end SafeInteger

end Realms
