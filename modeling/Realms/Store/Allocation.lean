import Realms.Store

/-!
Making new things: engines, realms, stacks, objects, foreign values, strings and symbols.
-/

namespace Realms.Store

def addObject (st : Store) (o : Object) : ObjectId × Store :=
  (⟨st.objects.size⟩, { st with objects := st.objects.push o })

/-- A realm with its three objects: both roots, and a global object under the object root. The
realm is not yet registered. -/
def buildRealm (st : Store) (id : RealmId) (name : String) : Realm × Store :=
  let (objectPrototype, st) := st.addObject ⟨id, .ordinary, none, .empty⟩
  let (functionPrototype, st) := st.addObject ⟨id, .ordinary, some objectPrototype, .empty⟩
  let (global, st) := st.addObject ⟨id, .global, some objectPrototype, .empty⟩
  (⟨id, name, global, objectPrototype, functionPrototype⟩, st)

/-- A new engine with its main realm. -/
def newEngine (st : Store) (settings : Settings) : EngineId × Store :=
  let e : EngineId := ⟨st.engines.size⟩
  let (main, st) := st.buildRealm (.main e) settings.mainRealmName
  (e, { st with engines := st.engines.push ⟨settings, .single main⟩ })

/-- A new realm at the end of an engine's registry, unless that is full. -/
def newRealm? (st : Store) (e : EngineId) (name : String) :
    Option (Except Error Realm × Store) := do
  let engine ← st.engine? e
  if Registry.limit ≤ engine.registry.count then some (.error .tooManyRealms, st)
  else
    let (realm, st) := st.buildRealm engine.registry.nextId name
    let add (engine : Engine) : Engine := { engine with registry := engine.registry.add realm }
    some (.ok realm, { st with engines := st.engines.modify e.index add })

def newStack? (st : Store) (e : EngineId) : Option (StackId × Store) := do
  let engine ← st.engine? e
  some (⟨st.callStacks.size⟩, { st with callStacks := st.callStacks.push (.spawn engine.registry) })

/-- An ordinary object of a realm, under the realm's object root. -/
def newObject? (st : Store) (r : RealmId) : Option (ObjectId × Store) := do
  let realm ← st.realm? r
  some (st.addObject ⟨r, .ordinary, some realm.objectPrototype, .empty⟩)

/-- An ordinary object of the realm that is active on a stack. -/
def newObjectOn? (st : Store) (s : StackId) : Option (ObjectId × Store) := do
  st.newObject? (← st.stack? s).active.id

/-- A function object, whose home realm is the realm it is made in. -/
def newFunction? (st : Store) (r : RealmId) (f : Function) : Option (ObjectId × Store) := do
  let realm ← st.realm? r
  some (st.addObject ⟨r, .function f, some realm.functionPrototype, .empty⟩)

def newForeign (st : Store) (f : Foreign) : ForeignId × Store :=
  (⟨st.foreigns.size⟩, { st with foreigns := st.foreigns.push f })

def newString (st : Store) (text : String) : SharedString × Store :=
  (⟨text, st.allocations⟩, { st with allocations := st.allocations + 1 })

def newSymbol (st : Store) (description : Option String) : Symbol × Store :=
  (⟨description, st.allocations⟩, { st with allocations := st.allocations + 1 })

end Realms.Store
