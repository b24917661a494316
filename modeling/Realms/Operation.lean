import Realms.Store.Allocation
import Realms.Store.Boundary
import Realms.Store.Classification
import Realms.Store.Property

/-!
The operations that host code performs on a store through the stack that it runs on. Readings change
nothing; actions may. An operation on a handle that the store never gave out has no result.
-/

namespace Realms

/-- The operations that only look, by the type of what they find. -/
inductive Reading : Type → Type 1 where
  /-- The stack that the program runs on. -/
  | stack : Reading Stack
  | settings (e : EngineId) : Reading Settings
  | registry (e : EngineId) : Reading Registry
  | scope (s : ScopeId) : Reading Scope
  | object (o : ObjectId) : Reading Object
  | foreign (f : ForeignId) : Reading Foreign
  /-- A property, own or inherited. -/
  | property (o : ObjectId) (name : String) : Reading (Option Value)
  /-- A global of the active realm. -/
  | global (name : String) : Reading (Except Error Value)
  | text (v : Value) : Reading String
  | typeName (v : Value) : Reading String

def Reading.eval {α : Type} (r : Reading α) (s : StackId) (st : Store) : Option α :=
  match r with
  | .stack => st.stack? s
  | .settings e => (st.engine? e).map (·.settings)
  | .registry e => (st.engine? e).map (·.registry)
  | .scope i => st.scope? i
  | .object o => st.object? o
  | .foreign f => st.foreign? f
  | .property o name => (st.object? o).map fun _ => st.property? o name
  | .global name => st.global? s name
  | .text v => some (st.text v)
  | .typeName v => some (st.typeName v)

/-- The operations that may change the store, by the type of their answer. -/
inductive Action : Type → Type 1 where
  | newEngine (settings : Settings) : Action EngineId
  | newRealm (e : EngineId) (name : String) : Action (Except Error Realm)
  | newStack (e : EngineId) : Action StackId
  | newObject (r : RealmId) : Action ObjectId
  /-- An object of the active realm. -/
  | newObjectHere : Action ObjectId
  | newForeign (f : Foreign) : Action ForeignId
  | newString (text : String) : Action SharedString
  | newSymbol (description : Option String) : Action Symbol
  | setProperty (o : ObjectId) (name : String) (v : Value) : Action (Option Value)
  /-- Sets a global of the active realm. -/
  | setGlobal (name : String) (v : Value) : Action Unit
  | isObject (v : Value) : Action Bool
  | isCallable (v : Value) : Action Bool
  | typeTag (v : Value) : Action TypeTag
  /-- Reads a property of any value. -/
  | read (target : Value) (name : String) : Action (Except Error Value)
  | enter (home : RealmId) : Action (Except Error ScopeId)
  | leave (s : ScopeId) : Action Unit

def Action.perform {α : Type} (rule : EntryRule) (a : Action α) (s : StackId) (st : Store) :
    Option (α × Store) :=
  match a with
  | .newEngine settings => some (st.newEngine settings)
  | .newRealm e name => st.newRealm? e name
  | .newStack e => st.newStack? e
  | .newObject r => st.newObject? r
  | .newObjectHere => st.newObjectOn? s
  | .newForeign f => some (st.newForeign f)
  | .newString text => some (st.newString text)
  | .newSymbol description => some (st.newSymbol description)
  | .setProperty o name v => st.setProperty? o name v
  | .setGlobal name v => st.setGlobal? s name v
  | .isObject v => st.isObject? v
  | .isCallable v => st.isCallable? v
  | .typeTag v => st.typeTag? v
  | .read target name => st.read? target name
  | .enter home => st.enterScope? rule s home
  | .leave i => st.leaveScope? i

end Realms
