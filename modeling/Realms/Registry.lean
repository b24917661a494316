import Realms.Error

/-!
Realms and the registry in which an engine keeps them. Positions are given in order of creation and
never reused; the main realm is there from the start. The registry also notes whether any other
realm has ever been made.
-/

namespace Realms

/-- An isolated global context with its own global object and its own prototype roots. -/
structure Realm where
  id : RealmId
  name : String
  global : ObjectId
  objectPrototype : ObjectId
  functionPrototype : ObjectId
  deriving DecidableEq

def Realm.debugText (r : Realm) : String := "Realm (" ++ r.id.text ++ " '" ++ r.name ++ "')"

/-- The realms of one engine, by position. -/
structure Registry where
  engine : EngineId
  realms : Array Realm
  hasSecondary : Bool
  size_pos : 0 < realms.size

namespace Registry

/-- The registry of a new engine. -/
def single (main : Realm) : Registry := ⟨main.id.engine, #[main], false, by simp⟩

def main (r : Registry) : Realm :=
  have := r.size_pos
  r.realms[0]

def count (r : Registry) : Nat := r.realms.size

/-- How many realms a registry can hold: positions are 32 bits wide. -/
def limit : Nat := 4294967296

/-- The id that the next realm will have. -/
def nextId (r : Registry) : RealmId := ⟨r.engine, r.realms.size⟩

def add (r : Registry) (realm : Realm) : Registry :=
  { r with realms := r.realms.push realm, hasSecondary := true, size_pos := by simp }

/-- Whether an id belongs to the engine; the position is not looked at. -/
def owns (r : Registry) (id : RealmId) : Bool := id.engine = r.engine

/-- The realm of an id of this engine. -/
def realm? (r : Registry) (id : RealmId) : Option Realm :=
  if r.owns id then r.realms[id.index]? else none

/-- The realm of an id, or an error if the id is unknown to this engine. -/
def expect (r : Registry) (id : RealmId) : Except Error Realm :=
  match r.realm? id with
  | some realm => .ok realm
  | none => .error (.of (.unknownRealm id))

/-- The first realm of a name. -/
def named? (r : Registry) (name : String) : Option Realm := r.realms.find? (·.name = name)

end Registry

end Realms
