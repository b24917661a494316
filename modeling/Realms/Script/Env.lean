import Realms.Names
import Realms.Program
import Realms.Script.Answer

/-!
The memory of a script: what each name was last given to, and the log of labelled results.
-/

namespace Realms.Script

structure Env where
  engines : Names EngineId
  realms : Names Realm
  callStacks : Names StackId
  values : Names Value
  errors : Names Error
  scopes : Names ScopeId
  /-- The realms that each probe has seen, the latest first. -/
  probes : Names (List RealmId)
  recordings : Names ForeignId
  log : Array (String × Answer)

def Env.empty : Env := ⟨.empty, .empty, .empty, .empty, .empty, .empty, .empty, .empty, #[]⟩

/-- What the steps of a script do: programs that may fail. -/
abbrev Work := ExceptT Error (Program Env)

namespace Work

variable {α : Type}

def host (p : Program Env α) : Work α := ExceptT.lift p

def fails (text : String) : Work α := throw (.of (.message text))

def env : Work Env := host Program.memory

def update (f : Env → Env) : Work Unit := host (Program.modifyMemory f)

def read (r : Reading α) : Work α := host (Program.read r)

def act (a : Action α) : Work α := host (Program.act a)

/-- The thing of a name. -/
def named (names : Env → Names α) (name : String) : Work α := do
  match (names (← env)).get? name with
  | some a => pure a
  | none => fails ("nothing is named " ++ name)

end Work

end Realms.Script
