import Realms.Store

/-!
Entering and leaving the scopes that make a realm active on a stack, and the count of calls in
progress there.
-/

namespace Realms

/-- Whether entering a scope may skip the comparison of realms on a stack whose engine has never
had a second realm. -/
inductive EntryRule where
  | shortcut
  | direct
  deriving DecidableEq

namespace Store

/-- Makes a realm active on a stack, for a scope. A realm of another engine is refused. Nothing is
switched when the realm is active already, and then the scope keeps nothing to put back. -/
def enter? (rule : EntryRule) (st : Store) (s : StackId) (home : RealmId) :
    Option (Except Error Scope × Store) := do
  let stack ← st.stack? s
  let registry := (← st.engine? stack.engine).registry
  let _ ← st.realm? home
  let stay : Except Error Scope × Store := (.ok ⟨s, home, none, false⟩, st)
  if !registry.owns home then some (.error (.of (.unknownRealm home)), st)
  else if rule = .shortcut ∧ !registry.hasSecondary then some stay
  else if stack.active.id = home then some stay
  else match registry.realm? home with
    | none => some (.error (.of (.unknownRealm home)), st)
    | some realm =>
      some (.ok ⟨s, home, some stack.active, false⟩, st.modifyStack s (·.activate realm))

/-- Puts back the realm that a scope replaced. -/
def restore (st : Store) (scope : Scope) : Store :=
  match scope.previous with
  | none => st
  | some realm => st.modifyStack scope.stack (·.activate realm)

/-- Enters a scope that the program ends. -/
def enterScope? (rule : EntryRule) (st : Store) (s : StackId) (home : RealmId) :
    Option (Except Error ScopeId × Store) := do
  match ← st.enter? rule s home with
  | (.error e, st) => some (.error e, st)
  | (.ok scope, st) => some (.ok ⟨st.scopes.size⟩, { st with scopes := st.scopes.push scope })

/-- Ends a scope of a program. A scope that has ended stays so. -/
def leaveScope? (st : Store) (i : ScopeId) : Option (Unit × Store) := do
  let scope ← st.scope? i
  if scope.finished then some ((), st)
  else
    let st := { st with scopes := st.scopes.modify i.index Scope.finish }
    some ((), st.restore scope)

/-- Enters the scope of a crossing. -/
def beginCrossing (st : Store) (scope : Scope) : Store :=
  { st with underway := scope :: st.underway }

/-- Ends the scope of the innermost crossing. -/
def endCrossing (st : Store) (scope : Scope) : Store :=
  { st with underway := st.underway.tail, ended := scope.finish :: st.ended }.restore scope

/-- Counts a call that begins, unless as many are in progress as the engine allows. -/
def pushCall? (st : Store) (s : StackId) : Option (Except Error Store) := do
  let stack ← st.stack? s
  let engine ← st.engine? stack.engine
  if engine.settings.maxCallDepth ≤ stack.depth then
    some (.error (.of (.exhausted stack.depth)))
  else some (.ok (st.modifyStack s fun stack => { stack with depth := stack.depth + 1 }))

/-- Counts a call that ends. -/
def popCall (st : Store) (s : StackId) : Store :=
  st.modifyStack s fun stack => { stack with depth := stack.depth - 1 }

end Store

end Realms
