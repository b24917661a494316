import Realms.Memory.Cell

/-!
Steps over named shared strings and named handles to cells. A step inside others that hold cells may
also use the guards of these.
-/

namespace Realms.Memory

inductive Step where
  | string (keep text : String)
  | cloneString (string keep : String)
  | showString (string : String)
  | compareStrings (a b : String)
  | cell (keep : String) (value : Int64)
  | cloneCell (cell keep : String)
  | get (cell : String)
  | set (cell : String) (value : Int64)
  | add (cell : String) (amount : Int64)
  | sameCell (a b : String)
  /-- Runs steps while the cell is held for reading. -/
  | withReader (cell : String) (body : List Step)
  /-- Runs steps while the cell is held for writing, and then makes its value into another, if it is
  said into which. -/
  | holdWriter (cell : String) (body : List Step) (last : Option (Int64 → Int64))
  /-- Reads through a guard that is around the step, counted from the innermost. -/
  | look (guard : Nat)
  /-- Writes through a guard that is around the step. -/
  | change (guard : Nat) (f : Int64 → Int64)
  | attempt (body : List Step)
  /-- Applies a shared closure, which adds its own number to another. -/
  | closure (own other : Int64)

/-- Runs steps while the cell is held for writing, and then doubles its value. -/
def Step.withWriter (cell : String) (body : List Step) : Step :=
  .holdWriter cell body (some (· * 2))

/-- How two shared strings compare: by their text, and by the allocation that they share. -/
structure StringComparison where
  equal : Bool
  same : Bool
  deriving DecidableEq

namespace StringComparison

/-- How many different texts there are among the two. -/
def texts (c : StringComparison) : Nat := if c.equal then 1 else 2

def addresses (c : StringComparison) : Nat := if c.same then 1 else 2

end StringComparison

inductive Answer where
  | nothing
  | flag (b : Bool)
  | number (n : Int64)
  | string (text : String)
  | comparison (c : StringComparison)
  | held (value : Int64) (answers : List Answer)
  | attempted (answers : List Answer)
  | sum (n : Int64)
  | panicked

end Realms.Memory
