import Realms.Store

/-!
Reading and writing named properties: own ones, those inherited along the prototype chain, and the
globals of the realm that is active on a stack.
-/

namespace Realms.Store

/-- The value of the first object on a prototype chain that has the name as its own. A prototype is
always older than the objects under it, so the chain ends. -/
def property? (st : Store) (o : ObjectId) (name : String) : Option Value :=
  match st.object? o with
  | none => none
  | some object =>
    match object.properties.get? name, object.prototype with
    | some value, _ => some value
    | none, none => none
    | none, some p => if p.index < o.index then st.property? p name else none
termination_by o.index

/-- Sets an own property; the answer is the value that it replaces. -/
def setProperty? (st : Store) (o : ObjectId) (name : String) (value : Value) :
    Option (Option Value × Store) := do
  let object ← st.object? o
  let set (object : Object) : Object :=
    { object with properties := object.properties.set name value }
  some (object.properties.get? name, { st with objects := st.objects.modify o.index set })

/-- Reads a global of the active realm; one that is not set is a reference error. -/
def global? (st : Store) (s : StackId) (name : String) : Option (Except Error Value) := do
  match st.property? (← st.stack? s).active.global name with
  | some value => some (.ok value)
  | none => some (.error (.notDefined name))

def setGlobal? (st : Store) (s : StackId) (name : String) (value : Value) :
    Option (Unit × Store) := do
  let (_, st) ← st.setProperty? (← st.stack? s).active.global name value
  some ((), st)

end Realms.Store
