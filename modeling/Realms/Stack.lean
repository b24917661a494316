import Realms.Registry

/-!
Evaluation stacks and the scopes in which another realm is active on one. A stack knows the realm
that is active on it, how often that realm has been replaced, and how many calls are in progress.
-/

namespace Realms

structure Stack where
  engine : EngineId
  active : Realm
  switches : Nat
  depth : Nat
  deriving DecidableEq

namespace Stack

/-- A new stack: no calls, and the engine's main realm active. -/
def spawn (registry : Registry) : Stack := ⟨registry.engine, registry.main, 0, 0⟩

/-- The stack with another realm active. -/
def activate (s : Stack) (realm : Realm) : Stack :=
  { s with active := realm, switches := s.switches + 1 }

def debugText (s : Stack) : String :=
  "ActiveRealmState (" ++ s.active.id.text ++ ", " ++ toString s.switches ++ " switches)"

end Stack

/-- How far a scope has come. -/
inductive BoundaryState where
  | notEntered
  | entered
  | left
  deriving DecidableEq

def BoundaryState.name : BoundaryState → String
  | .notEntered => "NotEntered"
  | .entered => "Entered"
  | .left => "Left"

/-- A stretch of a stack's history in which `home` is to be active. If entering it replaced another
realm, that realm is kept, to be put back once, at the end of the scope. -/
structure Scope where
  stack : StackId
  home : RealmId
  previous : Option Realm
  finished : Bool
  deriving DecidableEq

namespace Scope

def finish (s : Scope) : Scope := { s with finished := true }

def hasSwitched (s : Scope) : Bool := s.previous.isSome

def state (s : Scope) : BoundaryState :=
  if s.finished then .left else if s.hasSwitched then .entered else .notEntered

end Scope

end Realms
