import Realms.Proofs.Borrow.Held

/-! What the runtime's operations borrow, and for how long. Things that never change after they are
made, such as an object's realm and prototype, are in no cell. A scope that puts a realm back lets
go of the realm that it replaces, and does so while the stack's active realm is borrowed: where that
realm ends then, the scopes of its functions are left under this guard. -/

namespace Realms.Borrow

variable {σ α : Type}

open Held

/-! ### Properties -/

def own (o : ObjectId) (name : String) : Held σ (Option Value) :=
  holding .read (.properties o) <| look fun st =>
    some ((st.object? o).bind (·.properties.get? name))

/-- A property, own or inherited. Each object on the prototype chain is borrowed by itself. -/
def property (o : ObjectId) (name : String) : Held σ (Option Value) := do
  match ← own o name with
  | some value => pure (some value)
  | none =>
    match ← look fun st => some ((st.object? o).bind (·.prototype)) with
    | none => pure none
    | some p => if p.index < o.index then property p name else pure none
termination_by o.index

def setProperty (o : ObjectId) (name : String) (v : Value) : Held σ (Option Value) :=
  holding .write (.properties o) (change (·.setProperty? o name v))

/-! ### Scopes -/

def active (s : StackId) : Held σ Realm :=
  holding .read (.active s) (look fun st => (st.stack? s).map (·.active))

/-- Makes a realm active on a stack; the answer is the realm that it replaces. -/
def activate (s : StackId) (realm : Realm) : Held σ Realm :=
  holding .write (.active s) <| change fun st => do
    some ((← st.stack? s).active, st.modifyStack s (·.activate realm))

def enter (rule : EntryRule) (s : StackId) (home : RealmId) : Held σ (Except Error Scope) := do
  let e ← look fun st => (st.stack? s).map (·.engine)
  let registry ← look fun st => (st.engine? e).map (·.registry)
  let _ ← look (·.realm? home)
  if !registry.owns home then pure (.error (.of (.unknownRealm home)))
  else if rule = .shortcut ∧ !registry.hasSecondary then
    -- The main realm is active then, which is asserted.
    let _ ← active s
    pure (.ok ⟨s, home, none, false⟩)
  else if (← active s).id = home then pure (.ok ⟨s, home, none, false⟩)
  else
    let found ← holding .read (.realms e) <| look fun st =>
      (st.engine? e).map (·.registry.realm? home)
    match found with
    | none => pure (.error (.of (.unknownRealm home)))
    | some realm =>
      let previous ← activate s realm
      pure (.ok ⟨s, home, some previous, false⟩)

/-- A realm is in its engine's list no more. -/
def lose (r : RealmId) : Held σ Unit := fun w =>
  (.ended (.done ()), { w with lost := r :: w.lost })

/-- Gives a scope to a function that only the realm keeps. -/
def entrusting (r : RealmId) (i : ScopeId) : Held σ Unit := fun w =>
  (.ended (.done ()), { w with entrusted := w.entrusted ++ [(r, i)] })

section

variable (discard : RealmId → Held σ Unit)

/-- Lets go of a realm, which ends unless it is kept elsewhere. -/
def letGo : Option RealmId → Held σ Unit
  | none => pure ()
  | some r => fun w => if w.Keeps r then (.ended (.done ()), w) else discard r w

def restore (scope : Scope) : Held σ Unit :=
  if scope.hasSwitched then
    holding .write (.active scope.stack) do
      let replaced ← change fun st =>
        some ((st.stack? scope.stack).map (·.active.id), st.restore scope)
      letGo discard replaced
  else pure ()

/-- A scope that is left no longer keeps the stack's active realm. -/
def leave (i : ScopeId) : Held σ Unit := do
  let scope ← look (·.scope? i)
  if scope.finished then pure ()
  else
    restore discard scope
    let kept ← change fun st => some ((st.stack? scope.stack).map (·.active.id),
      { st with scopes := st.scopes.modify i.index Scope.finish })
    letGo discard kept

def leaveAll : List ScopeId → Held σ Unit
  | [] => pure ()
  | i :: rest => do
    leave discard i
    leaveAll rest

/-- The functions that only the realm keeps are gone with it, and drop the scopes that they own. -/
def ending (r : RealmId) : Held σ Unit := fun w => leaveAll discard (w.custody r) w

/-- An engine's list of realms is dropped from the front. -/
def loseAll : List RealmId → Held σ Unit
  | [] => pure ()
  | r :: rest => do
    lose r
    letGo discard (some r)
    loseAll rest

/-- An engine cannot be let go of while one of its stacks is running. -/
def forgetting (e : EngineId) : Held σ Unit := do
  let engine ← look (·.engine? e)
  fun w =>
    if w.Uses e then (.ended (.done ()), w)
    else loseAll discard (engine.registry.realms.toList.map (·.id)) w

/-- Runs a body and drops a scope at its end, also when the body panics. -/
def scoping (i : ScopeId) (body : Held σ α) : Held σ α := do
  match ← guarding body with
  | .ok a =>
    leave discard i
    pure a
  | .error text =>
    unwinding (leave discard i)
    Held.panic text

def endCrossing (scope : Scope) : Held σ Unit := do
  change fun st =>
    some ((), { st with underway := st.underway.tail, ended := scope.finish :: st.ended })
  restore discard scope

end

def enterScope (rule : EntryRule) (s : StackId) (home : RealmId) :
    Held σ (Except Error ScopeId) := do
  match ← enter rule s home with
  | .error e => pure (.error e)
  | .ok scope =>
    change fun st => some (.ok ⟨st.scopes.size⟩, { st with scopes := st.scopes.push scope })

/-- Runs a body with `home` active. The scope is dropped at its end, also when it panics. -/
def crossing (discard : RealmId → Held σ Unit) (rule : EntryRule) (home : RealmId)
    (origin : Frame) (s : StackId) (body : Held σ (Except Error α)) : Held σ (Except Error α) := do
  match ← enter rule s home with
  | .error e => pure (.error e)
  | .ok scope =>
    change fun st => some ((), st.beginCrossing scope)
    let result ← dropping (endCrossing discard scope) body
    pure (result.mapError (·.atBoundary origin))

/-! ### Calls -/

/-- How the bodies of functions are run, and questions to foreign values answered; and what happens
when a realm ends. -/
structure Level (σ : Type) where
  invoke : CodeId → CallContext → StackId → Held σ (Except Error Value)
  consult : ForeignId → (q : Query) → StackId → Held σ (Answer q)
  discard : RealmId → Held σ Unit

/-- Counts a call that begins, unless as many are in progress as the engine allows. -/
def pushCall (s : StackId) : Held σ (Except Error Unit) :=
  change fun st => do
    match ← st.pushCall? s with
    | .error e => some (.error e, st)
    | .ok st => some (.ok (), st)

def counted (s : StackId) (body : Held σ (Except Error Value)) : Held σ (Except Error Value) := do
  match ← pushCall s with
  | .error e => pure (.error e)
  | .ok () =>
    let result ← body
    change fun st => some ((), st.popCall s)
    pure result

def refusing (callee : Value) : Held σ (Except Error α) := do
  let name ← look fun st => some (st.typeName callee)
  pure (.error (.notFunction name))

def calling (rule : EntryRule) (l : Level σ) (callee : Value) (arguments : List Value)
    (s : StackId) : Held σ (Except Error Value) :=
  match callee with
  | .object o => do
    let object ← look (·.object? o)
    match object.function? with
    | none => refusing callee
    | some f =>
      let result ← crossing l.discard rule object.realm object.frame s
        (counted s (l.invoke f.code ⟨o, arguments⟩ s))
      pure (result.mapError (·.passing object.frame))
  | _ => refusing callee

/-- Makes a function object and keeps its body. -/
def defining (realm : RealmId) (name : String) (location : Option Location)
    (body : CallContext → Session σ (Except Error Value)) : Held σ ObjectId := fun w =>
  match w.store.newFunction? realm ⟨name, location, ⟨w.code.size⟩⟩ with
  | none => (.ended (.panicked unknownHandle), w)
  | some (o, store) => (.ended (.done o), { w with store, code := w.code.push body })

/-! ### Foreign values -/

section

variable (ask : (q : Query) → Held σ (Answer q))

/-- Each question is put by itself; the first yes ends them. -/
def isObject : Held σ Bool := do
  if ← ask (.predicate .null) then pure false
  else if ← ask (.predicate .boolean) then pure false
  else if ← ask (.predicate .string) then pure false
  else if ← ask (.predicate .number) then pure false
  else pure true

def isCallable : Held σ Bool := do
  if ← isObject ask then ask (.predicate .executable) else pure false

def typeTag : Held σ TypeTag := do
  if ← ask (.predicate .null) then pure .object
  else if ← ask (.predicate .boolean) then pure .boolean
  else if ← ask (.predicate .string) then pure .string
  else if ← ask (.predicate .number) then pure .number
  else if ← ask (.predicate .executable) then pure .function
  else pure .object

def readForeign (f : ForeignId) (name : String) : Held σ (Except Error Value) := do
  if ← isObject ask then
    let value ← ask (.member name)
    pure (.ok (value.getD .undefined))
  else if ← ask (.predicate .null) then
    let text ← look fun st => some (st.text (.foreign f))
    pure (.error (.unreadable text name))
  else pure (.ok .undefined)

end

/-- Notes a question in the record of a foreign value. -/
def noteQuestion (f : ForeignId) (q : Query) : Held σ Unit :=
  holding .write (.questions f) <| change fun st => do
    let _ ← st.foreign? f
    some ((), { st with foreigns := st.foreigns.modify f.index (·.note [q]) })

/-! ### Operations -/

def global (s : StackId) (name : String) : Held σ (Except Error Value) := do
  match ← property (← active s).global name with
  | some value => pure (.ok value)
  | none => pure (.error (.notDefined name))

def reading (s : StackId) : {α : Type} → Reading α → Held σ α
  | _, .stack => holding .read (.active s) (look (Reading.stack.eval s))
  | _, .registry e => holding .read (.realms e) (look ((Reading.registry e).eval s))
  | _, .object o => holding .read (.properties o) (look ((Reading.object o).eval s))
  | _, .foreign f => holding .read (.questions f) (look ((Reading.foreign f).eval s))
  | _, .property o name => do
    let _ ← look (·.object? o)
    property o name
  | _, .global name => global s name
  | _, r => look (r.eval s)

def acting (rule : EntryRule) (l : Level σ) (s : StackId) : {α : Type} → Action α → Held σ α
  | _, .newRealm e name =>
    holding .write (.realms e) (change ((Action.newRealm e name).perform rule s))
  | _, .newStack e => do
    let _ ← holding .read (.realms e) (look fun st => (st.engine? e).map (·.registry.main))
    change (·.newStack? e)
  | _, .newObjectHere => do
    let realm ← active s
    change (·.newObject? realm.id)
  | _, .setProperty o name v => setProperty o name v
  | _, .setGlobal name v => do
    let _ ← setProperty (← active s).global name v
  | _, .isObject (.foreign f) => isObject (l.consult f · s)
  | _, .isCallable (.foreign f) => isCallable (l.consult f · s)
  | _, .typeTag (.foreign f) => typeTag (l.consult f · s)
  | _, .read (.foreign f) name => readForeign (l.consult f · s) f name
  | _, .read (.object o) name => do
    let _ ← look (·.object? o)
    pure (.ok ((← property o name).getD .undefined))
  | _, .enter home => enterScope rule s home
  | _, .leave i => leave l.discard i
  | _, a => change (a.perform rule s)

/-- Notes the active realm while the notes are borrowed. -/
def noting (p : ProbeId) (s : StackId) (note : RealmId → σ → σ) : Held σ Unit :=
  holding .write (.notes p) do
    let realm ← active s
    remember (note realm.id (← remembered))

/-! ### Sessions -/

/-- Runs a session, given how bodies are run and questions answered. -/
def Session.heldWith (rule : EntryRule) (l : Level σ) :
    {α : Type} → Session σ α → StackId → Held σ α
  | _, .done a, _ => pure a
  | _, .panic text, _ => Held.panic text
  | _, .recalling k, s => do (k (← remembered)).heldWith rule l s
  | _, .remembering memory k, s => do
    remember memory
    k.heldWith rule l s
  | _, .reading r k, s => do (k (← Borrow.reading s r)).heldWith rule l s
  | _, .acting a k, s => do (k (← Borrow.acting rule l s a)).heldWith rule l s
  | _, .defining realm name location body k, s => do
    (k (← Borrow.defining realm name location body)).heldWith rule l s
  | _, .calling callee arguments k, s => do
    (k (← Borrow.calling rule l callee arguments s)).heldWith rule l s
  | _, .crossing home origin body k, s => do
    let result ← Borrow.crossing l.discard rule home origin s do
      starting (.crossing home)
      body.heldWith rule l s
    (k result).heldWith rule l s
  | _, .onStack t body k, s => do (k (← onto t (body.heldWith rule l t))).heldWith rule l s
  | _, .guarding body k, s => do (k (← Held.guarding (body.heldWith rule l s))).heldWith rule l s
  | _, .noting p note k, s => do
    Borrow.noting p s note
    k.heldWith rule l s
  | _, .seeing p k, s => do (k (← holding .read (.notes p) remembered)).heldWith rule l s
  | _, .scoping i body k, s => do
    (k (← Borrow.scoping l.discard i (body.heldWith rule l s))).heldWith rule l s
  | _, .entrusting r i k, s => do
    Borrow.entrusting r i
    k.heldWith rule l s
  | _, .forgetting e k, s => do
    Borrow.forgetting l.discard e
    k.heldWith rule l s

/-- Puts a question: it is noted, and then the value's own code answers it. -/
def consulting (conduct : Conduct σ) (rule : EntryRule) (l : Level σ) (f : ForeignId) (q : Query)
    (s : StackId) : Held σ (Answer q) := do
  starting (.question f q)
  noteQuestion f q
  (conduct f q).heldWith rule l s

/-- Runs the body of a function. -/
def invoking (rule : EntryRule) (l : Level σ) (c : CodeId) (context : CallContext) (s : StackId) :
    Held σ (Except Error Value) := fun w =>
  match w.code[c.index]? with
  | none => (.ended (.panicked unknownHandle), w)
  | some body => (do starting (.body c); (body context).heldWith rule l s : Held σ _) w

/-- Nothing of the user's is run, and no scope is left for a realm that ends. -/
def Level.exhausted : Level σ where
  invoke _ _ _ := outOfFuel
  consult _ _ _ := outOfFuel
  discard r w := if w.custody r = [] then (.ended (.done ()), w) else (.ended .outOfFuel, w)

/-- What there is when `fuel` more calls, questions and ends of realms may be nested; beyond them a
question can still be answered by code that uses none. -/
def level (conduct : Conduct σ) (rule : EntryRule) : Nat → Level σ
  | 0 =>
    ⟨fun _ _ _ => outOfFuel, consulting conduct rule .exhausted, ending Level.exhausted.discard⟩
  | fuel + 1 =>
    let below := level conduct rule fuel
    ⟨invoking rule below, consulting conduct rule below, ending below.discard⟩

/-- Runs a session in which at most `fuel` calls, questions and ends of realms are nested. -/
def Session.held (conduct : Conduct σ) (rule : EntryRule) (fuel : Nat) (p : Session σ α)
    (s : StackId) : Held σ α :=
  onto s (p.heldWith rule (level conduct rule fuel) s)

end Realms.Borrow
