import Realms.Program

/-!
Ready-made functions: one that notes the realm it runs in, one that fails, and one that calls
itself until the stack runs out.
-/

namespace Realms.Program

variable {σ : Type}

/-- Notes the realm that is active when the function runs. -/
def probeBody (note : RealmId → σ → σ) : CallContext → Program σ (Except Error Value) := fun _ => do
  let stack ← read .stack
  modifyMemory (note stack.active.id)
  pure (.ok .undefined)

/-- Throws a new string. -/
def failingBody (text : String) : CallContext → Program σ (Except Error Value) := fun _ => do
  let message ← act (.newString text)
  pure (.error (.of (.thrown (.string message))))

/-- Calls the global of the given name, whatever it is by then. -/
def recursiveBody (name : String) : CallContext → Program σ (Except Error Value) := fun _ => do
  match ← read (.global name) with
  | .ok f => call f []
  | .error e => pure (.error e)

def probe (realm : Realm) (name : String) (note : RealmId → σ → σ) : Program σ ObjectId :=
  define realm.id name none (probeBody note)

def failing (realm : Realm) (text : String) : Program σ ObjectId :=
  define realm.id "fail" none (failingBody text)

/-- A function that is the global of its own name in its realm, and calls that global. -/
def recursive (realm : Realm) (name : String) : Program σ ObjectId := do
  let f ← define realm.id name none (recursiveBody name)
  let _ ← act (.setProperty realm.global name (.object f))
  pure f

end Realms.Program
