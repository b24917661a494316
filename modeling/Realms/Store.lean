import Realms.Error
import Realms.Foreign
import Realms.Number.Text
import Realms.Object
import Realms.Stack

/-!
The store: everything that outlives a single operation, each kind of thing in order of creation.
Nothing is ever forgotten. A lookup fails only for a handle that the store never gave out.
-/

namespace Realms

/-- The settings of an engine. -/
structure Settings where
  mainRealmName : String
  maxCallDepth : Nat
  deriving DecidableEq

def Settings.standard : Settings := ⟨"main", 256⟩

structure Engine where
  settings : Settings
  registry : Registry

structure Store where
  engines : Array Engine
  callStacks : Array Stack
  /-- The scopes that programs have entered, and end when they choose. -/
  scopes : Array Scope
  /-- The scopes of the calls and crossings in progress, innermost first. -/
  underway : List Scope
  /-- The scopes of the calls and crossings that have ended, latest first. -/
  ended : List Scope
  objects : Array Object
  foreigns : Array Foreign
  /-- How many strings and symbols have been made. -/
  allocations : Nat

namespace Store

def empty : Store := ⟨#[], #[], #[], [], [], #[], #[], 0⟩

def engine? (st : Store) (e : EngineId) : Option Engine := st.engines[e.index]?

def stack? (st : Store) (s : StackId) : Option Stack := st.callStacks[s.index]?

def scope? (st : Store) (s : ScopeId) : Option Scope := st.scopes[s.index]?

def object? (st : Store) (o : ObjectId) : Option Object := st.objects[o.index]?

def foreign? (st : Store) (f : ForeignId) : Option Foreign := st.foreigns[f.index]?

/-- The realm of an id, in whichever engine it belongs to. -/
def realm? (st : Store) (r : RealmId) : Option Realm := do
  (← st.engine? r.engine).registry.realm? r

/-- The engine that a stack was spawned from. -/
def engineOf? (st : Store) (s : StackId) : Option Engine := do
  st.engine? (← st.stack? s).engine

def modifyStack (st : Store) (s : StackId) (f : Stack → Stack) : Store :=
  { st with callStacks := st.callStacks.modify s.index f }

@[simp] theorem stack?_modifyStack (st : Store) (s t : StackId) (f : Stack → Stack) :
    (st.modifyStack s f).stack? t = if s = t then (st.stack? t).map f else st.stack? t := by
  obtain ⟨i⟩ := s
  obtain ⟨j⟩ := t
  by_cases h : i = j <;> simp [modifyStack, stack?, Array.getElem?_modify, h]

def typeName (st : Store) : Value → String
  | .object o => (st.object? o).elim "" (·.objectClass.name)
  | .foreign f => (st.foreign? f).elim "" (·.typeName)
  | v => v.kind.name

/-- The text of a value. -/
def text (st : Store) : Value → String
  | .undefined => "undefined"
  | .null => "null"
  | .boolean b => if b then "true" else "false"
  | .small n => toString n.toInt
  | .large n => n.text
  | .double x => x.text
  | .symbol s => s.text
  | .bigInt n => bigIntText n
  | .string s => s.text
  | .object o => (st.object? o).elim "" (·.text)
  | .foreign f => (st.foreign? f).elim "" (·.text)

end Store

end Realms
