/-!
Handles: the names under which a store keeps its engines, realms, stacks, scopes, objects, foreign
values and function bodies. Each is a position in order of creation.
-/

namespace Realms

structure EngineId where
  index : Nat
  deriving DecidableEq

/-- A realm is named by its engine and its position there; the main realm comes first. -/
structure RealmId where
  engine : EngineId
  index : Nat
  deriving DecidableEq

structure StackId where
  index : Nat
  deriving DecidableEq

structure ScopeId where
  index : Nat
  deriving DecidableEq

structure ObjectId where
  index : Nat
  deriving DecidableEq

structure ForeignId where
  index : Nat
  deriving DecidableEq

/-- The body of a function, kept apart from the function object. -/
structure CodeId where
  index : Nat
  deriving DecidableEq

namespace RealmId

def main (e : EngineId) : RealmId := ⟨e, 0⟩

def isMain (r : RealmId) : Bool := r.index == 0

def text (r : RealmId) : String := "realm#" ++ toString r.engine.index ++ "." ++ toString r.index

/-- Realms are ordered by engine, then by position. -/
def compare (a b : RealmId) : Ordering :=
  (Ord.compare a.engine.index b.engine.index).then (Ord.compare a.index b.index)

end RealmId

end Realms
