import Realms.Handle

/-!
Shared cells with borrowing checked at run time. A cell is held by any number of readers or by one
writer; a hold that conflicts with the present one is refused.
-/

namespace Realms.Memory

/-- Who holds a cell at the moment. -/
inductive Hold where
  | readers (count : Nat)
  | writer
  deriving DecidableEq

namespace Hold

def free : Hold := .readers 0

/-- One reader more, unless there is a writer. -/
def read? : Hold → Option Hold
  | .readers n => some (.readers (n + 1))
  | .writer => none

/-- A writer, where there is nobody. -/
def write? : Hold → Option Hold
  | .readers 0 => some .writer
  | _ => none

/-- One holder less. -/
def release : Hold → Hold
  | .readers n => .readers (n - 1)
  | .writer => free

theorem release_read? {h g : Hold} (hg : h.read? = some g) : g.release = h := by
  cases h <;> simp only [read?, Option.some.injEq, reduceCtorEq] at hg
  subst hg
  rfl

theorem release_write? {h g : Hold} (hg : h.write? = some g) : g.release = h := by
  unfold write? at hg
  split at hg
  · injection hg with hg
    subst hg
    rfl
  · contradiction

end Hold

structure Cell where
  value : Int64
  hold : Hold
  deriving DecidableEq

/-- A cell, however many handles to it there are. -/
structure CellId where
  index : Nat
  deriving DecidableEq

inductive Access where
  | read
  | write
  deriving DecidableEq

def Access.take : Access → Hold → Option Hold
  | .read => Hold.read?
  | .write => Hold.write?

/-- The hold of a step on a cell, for the length of a body. -/
structure Guard where
  cell : CellId
  access : Access
  deriving DecidableEq

end Realms.Memory
