import Realms.Debug
import Realms.Program.Sample
import Realms.Script.Env
import Realms.Script.Step

/-!
What the steps of a script do. A step finishes with an answer and perhaps with the value that ends
the body it stands in, or it fails with an error, which ends every body up to the next attempt.
-/

namespace Realms.Script

namespace Report

open Program in
def ofValue (v : Value) : Program Env ValueReport := do
  let text ← read (.text v)
  match v with
  | .object o => pure ⟨v, text, some (← read (.object o)).realm⟩
  | _ => pure ⟨v, text, none⟩

def ofError (e : Error) : Program Env ErrorReport := do
  pure (.of e (← e.thrown?.mapM ofValue))

end Report

open Work

/-- How a step ends that does not fail. -/
structure Finish where
  answer : Answer
  /-- The value of the body, where the step ends it. -/
  returned : Option Value

namespace Finish

def answering (a : Answer) : Work Finish := pure ⟨a, none⟩

/-- Keeps a value under a name, if there is one, and answers it. -/
def keeping (keep : Option String) (v : Value) : Work Finish := do
  if let some name := keep then
    update fun env => { env with values := env.values.set name v }
  answering (.value (← Report.ofValue v))

def keeping? (keep : Option String) : Option Value → Work Finish
  | some v => keeping keep v
  | none => answering .nothing

def keepingObject (keep : Option String) (o : ObjectId) : Work Finish := keeping keep (.object o)

/-- Keeps a realm under a name, if there is one. -/
def keepRealm (keep : Option String) (r : Realm) : Work Unit := do
  if let some name := keep then
    update fun env => { env with realms := env.realms.set name r }

def keepingRealm (keep : Option String) (r : Realm) : Work Finish := do
  keepRealm keep r
  answering (.realm r)

end Finish

open Finish

mutual

/-- The value of a literal. -/
def Literal.eval (context : Option CallContext) : Literal → Work Value
  | .undefined => pure .undefined
  | .null => pure .null
  | .boolean b => pure (.boolean b)
  | .small n => pure (.small n)
  | .integer n => pure (.ofInt n)
  | .safe n => do pure (.large (← ExceptT.mk (pure (SafeInteger.ofInt n))))
  | .safe32 n => pure (.large (.ofInt32 n))
  | .double x => pure (.double x)
  | .symbol description => do pure (.symbol (← act (.newSymbol description)))
  | .bigInt n => pure (.bigInt n)
  | .string text => do pure (.string (← act (.newString text)))
  | .saved name => named (·.values) name
  | .argument i => match context with
    | some c => pure (c.argument i)
    | none => fails "there is no call"
  | .self => match context with
    | some c => pure (.object c.function)
    | none => fails "there is no call"
  | .shaped shape members => do pure (.foreign (← act (.newForeign (.shaped shape members))))
  | .recording null boolean string number record => do
    let f ← act (.newForeign (.recording null boolean string number))
    if let some name := record then
      update fun env => { env with recordings := env.recordings.set name f }
    pure (.foreign f)
  | .bare typeName => do pure (.foreign (← act (.newForeign (.bare typeName))))
  | .host typeName answers members => do
    let members ← evalMembers context members
    pure (.foreign (← act (.newForeign (.host typeName answers members))))

def evalMembers (context : Option CallContext) :
    List (String × Literal) → Work (List (String × Value))
  | [] => pure []
  | (name, literal) :: rest => do
    let v ← literal.eval context
    pure ((name, v) :: (← evalMembers context rest))

end

/-- The managed object of a literal. -/
def Literal.evalObject (context : Option CallContext) (literal : Literal) : Work ObjectId := do
  match ← literal.eval context with
  | .object o => pure o
  | _ => fails "the value is not a managed object"

/-- The error that a script describes. -/
def Fault.eval (context : Option CallContext) : Fault → Work Error
  | .message pieces => pure (.of (.message (String.join pieces)))
  | .thrown value => do pure (.of (.thrown (← value.eval context)))
  | .type text => pure (.of (.type text))
  | .range text => pure (.of (.range text))
  | .overflow => pure (.of (.range Cause.overflowText))
  | .reference text => pure (.of (.reference text))
  | .exhausted depth => pure (.of (.exhausted depth))
  | .unknownRealm realm => do pure (.of (.unknownRealm (← named (·.realms) realm).id))
  | .saved name => named (·.errors) name
  | .overflowing fault origin => do pure ((← fault.eval context).overflow origin)

/-- Everything there is to say of a value. -/
def describe (v : Value) : Work Description := do
  let report ← Report.ofValue v
  let isObject ← act (.isObject v)
  let isObjectAgain ← act (.isObject v)
  let isCallable ← act (.isCallable v)
  let typeTag ← act (.typeTag v)
  let typeName ← read (.typeName v)
  let detail ← match v with
    | .object o => Detail.object <$> read (.object o)
    | .foreign f => do
      let isObject ← act (.isObject v)
      pure (.foreign (← read (.foreign f)).origin isObject)
    | _ => pure .none
  pure ⟨report, isObject, isObjectAgain, isCallable, typeTag, typeName, detail⟩

/-- The diagnostic text of a value, with those of its class or its symbol. -/
def debug (v : Value) : Work Answer := do
  match v with
  | .object o =>
    let object ← read (.object o)
    pure (.debug object.debugText (some object.objectClass.debugText) none)
  | .foreign f => pure (.debug (← read (.foreign f)).debugText none none)
  | .symbol s => pure (.debug (v.debugText s.text) none (some s.debugText))
  | v => pure (.debug (v.debugText (← read (.text v))) none none)

/-- How two values of one kind compare. -/
def compareValues : Value → Value → Option Comparison
  | .symbol a, .symbol b => some ⟨some (a.allocation == b.allocation), none, none⟩
  | .bigInt a, .bigInt b => some ⟨some (a == b), none, none⟩
  | .large a, .large b => some ⟨some (a.val == b.val), none, none⟩
  | .string a, .string b =>
    let equal := some (a.text == b.text)
    some ⟨equal, equal, some (a.allocation == b.allocation)⟩
  | .object a, .object b => some ⟨some (a == b), none, some (a == b)⟩
  | .foreign a, .foreign b => some ⟨none, none, some (a == b)⟩
  | _, _ => none

/-- How many different things there are in a list. -/
def countDistinct {α : Type} [BEq α] (as : List α) : Nat := as.eraseDups.length

def diversity (vs : List Value) : Work Diversity := do
  let realms ← vs.filterMapM fun
    | .object o => do pure (some (← read (.object o)).realm)
    | _ => pure none
  pure {
    kinds := countDistinct (vs.map (·.kind))
    symbols := countDistinct (vs.filterMap fun
      | .symbol s => some s.allocation
      | _ => none)
    strings := countDistinct (vs.filterMap fun
      | .string s => some s.text
      | _ => none)
    bigInts := countDistinct (vs.filterMap fun
      | .bigInt n => some n
      | _ => none)
    integers := countDistinct (vs.filterMap fun
      | .large n => some n.val
      | _ => none)
    realms := countDistinct realms }

/-- The body of a function or a crossing: a body that returns nothing gives undefined. -/
def bodyOf (w : Work (Option Value)) : Program Env (Except Error Value) :=
  (do pure ((← w).getD .undefined) : Work Value).run

/-- Enters a scope and keeps it under a name. A scope that had the name is left after that. -/
def enterScope (realm keep : String) : Work Finish := do
  let home ← named (·.realms) realm
  let scope ← ExceptT.mk (Program.act (.enter home.id))
  let entered ← read (.scope scope)
  let before := (← env).scopes.get? keep
  update fun env => { env with scopes := env.scopes.set keep scope }
  if let some old := before then act (.leave old)
  answering (.scope entered)

/-- Leaves the scope of a name, and gives its last state. -/
def leaveScope (name : String) : Work Scope := do
  let scope ← named (·.scopes) name
  update fun env => { env with scopes := env.scopes.erase name }
  act (.leave scope)
  read (.scope scope)

/-- Runs a body so many times, unless it ends with a value before. -/
def repeated (body : Work (Option Value)) : Nat → Work (Option Value)
  | 0 => pure none
  | n + 1 => do
    match ← body with
    | some v => pure (some v)
    | none => repeated body n

/-- The standard settings with those given in their place. -/
def settingsWith (mainRealm : Option String) (maxDepth : Option Nat) : Settings :=
  ⟨mainRealm.getD Settings.standard.mainRealmName, maxDepth.getD Settings.standard.maxCallDepth⟩

mutual

/-- Runs one step. A step within a function body is given the context of the call. -/
def Step.exec (context : Option CallContext) : Step → Work Finish
  | .engine keep mainRealm maxDepth => do
    let e ← act (.newEngine (settingsWith mainRealm maxDepth))
    update fun env => { env with engines := env.engines.set keep e }
    answering .nothing
  | .engineClone engine keep => do
    let e ← named (·.engines) engine
    update fun env => { env with engines := env.engines.set keep e }
    answering .nothing
  | .sameEngine a b => do
    let a ← named (·.engines) a
    let b ← named (·.engines) b
    answering (.flag (a == b))
  | .engineInfo engine => do
    let e ← named (·.engines) engine
    answering (.engine (← read (.settings e)) (← read (.registry e)))
  | .mainRealm engine keep => do
    let e ← named (·.engines) engine
    keepingRealm keep (← read (.registry e)).main
  | .createRealm engine name keep => do
    let e ← named (·.engines) engine
    keepingRealm keep (← ExceptT.mk (Program.act (.newRealm e name)))
  | .realmByName engine name keep => do
    let e ← named (·.engines) engine
    match (← read (.registry e)).named? name with
    | some r => keepingRealm keep r
    | none => answering .nothing
  | .realmById engine realm keep => do
    let e ← named (·.engines) engine
    let r ← named (·.realms) realm
    let registry ← read (.registry e)
    let found := registry.realm? r.id
    if let some r := found then keepRealm keep r
    answering (.lookup (registry.owns r.id) found)
  | .expectRealm engine realm keep => do
    let e ← named (·.engines) engine
    let r ← named (·.realms) realm
    keepingRealm keep (← ExceptT.mk (pure ((← read (.registry e)).expect r.id)))
  | .compareRealms a b => do
    let a ← named (·.realms) a
    let b ← named (·.realms) b
    answering (.realmComparison (a == b) (a.id == b.id) (a.id.compare b.id))
  | .realmObject realm which keep => do
    let r ← named (·.realms) realm
    keepingObject keep (← match which with
      | .new => act (.newObject r.id)
      | .global => pure r.global
      | .objectPrototype => pure r.objectPrototype
      | .functionPrototype => pure r.functionPrototype)
  | .function realm name body location keep => do
    let r ← named (·.realms) realm
    keepingObject keep (← host (Program.define r.id name location fun context =>
      bodyOf (execAll (some context) body)))
  | .recursiveFunction realm name keep => do
    let r ← named (·.realms) realm
    keepingObject keep (← host (Program.recursive r name))
  | .failingFunction realm text keep => do
    let r ← named (·.realms) realm
    keepingObject keep (← host (Program.failing r text))
  | .probeFunction probe realm name keep => do
    let r ← named (·.realms) realm
    keepingObject keep (← host (Program.probe r name fun seen env =>
      { env with probes := env.probes.set probe (seen :: (env.probes.get? probe).getD []) }))
  | .probeSeen probe => do answering (.realmIds (((← env).probes.get? probe).getD []).reverse)
  | .value value keep => do keeping keep (← value.eval context)
  | .describe value => do answering (.description (← describe (← value.eval context)))
  | .isObject value => do answering (.flag (← act (.isObject (← value.eval context))))
  | .isCallable value => do answering (.flag (← act (.isCallable (← value.eval context))))
  | .typeOf value => do answering (.text (← act (.typeTag (← value.eval context))).name)
  | .debug value => do answering (← debug (← value.eval context))
  | .compare a b => do
    let a ← a.eval context
    let b ← b.eval context
    answering (.comparison (compareValues a b))
  | .distinct values => do
    answering (.diversity (← diversity (← values.mapM (·.eval context))))
  | .queries record => do
    let f ← read (.foreign (← named (·.recordings) record))
    answering (.texts (f.recorded.map (·.name)))
  | .error fault => do answering (.cause (← Report.ofError (← fault.eval context)))
  | .set target value key => do
    let o ← target.evalObject context
    let v ← value.eval context
    keeping? none (← act (.setProperty o key v))
  | .get target key keep => do
    let o ← target.evalObject context
    keeping? keep (← read (.property o key))
  | .getOwn target key keep => do
    let o ← target.evalObject context
    keeping? keep ((← read (.object o)).properties.get? key)
  | .hasOwn target key => do
    let o ← target.evalObject context
    answering (.flag ((← read (.object o)).properties.has key))
  | .keys target => do
    let o ← target.evalObject context
    answering (.texts (← read (.object o)).properties.keys)
  | .prototype target keep => do
    let o ← target.evalObject context
    keeping? keep ((← read (.object o)).prototype.map .object)
  | .stack engine keep => do
    let e ← named (·.engines) engine
    let s ← act (.newStack e)
    update fun env => { env with callStacks := env.callStacks.set keep s }
    answering .nothing
  | .state => do answering (.stackInFull (← read .stack))
  | .stackEngine engine => do
    let e ← named (·.engines) engine
    answering (.flag ((← read .stack).engine == e))
  | .currentRealm keep => do keepingRealm keep (← read .stack).active
  | .call callee arguments keep => do
    let callee ← callee.eval context
    let arguments ← arguments.mapM (·.eval context)
    keeping keep (← ExceptT.mk (Program.call callee arguments))
  | .across target body keep => do
    let o ← target.evalObject context
    keeping keep (← ExceptT.mk (Program.crossTo o (bodyOf (execAll none body))))
  | .inHome realm body origin keep => do
    let r ← named (·.realms) realm
    keeping keep (← ExceptT.mk (Program.cross r.id origin (bodyOf (execAll none body))))
  | .getGlobal name keep => do keeping keep (← ExceptT.mk (Program.read (.global name)))
  | .setGlobal value name => do
    let v ← value.eval context
    act (.setGlobal name v)
    answering .nothing
  | .stackObject keep => do keepingObject keep (← act .newObjectHere)
  | .stackFunction name body keep => do
    keepingObject keep (← host (Program.defineHere name fun context =>
      bodyOf (execAll (some context) body)))
  | .getProperty target key keep => do
    let target ← target.eval context
    keeping keep (← ExceptT.mk (Program.act (.read target key)))
  | .scopeEnter realm keep => enterScope realm keep
  | .scopeLeave scope => do answering (.text (← leaveScope scope).state.name)
  | .scopeDrop scope => do
    let _ ← leaveScope scope
    answering .nothing
  | .arguments => match context with
    | some c => do answering (.values (← host (c.arguments.mapM Report.ofValue)))
    | none => fails "there is no call"
  | .returns value => do
    let v ← value.eval context
    pure ⟨.value (← Report.ofValue v), some v⟩
  | .raise fault => do throw (← fault.eval context)
  | .panic text => host (.panic text)
  | .attempt body keepError handler => do
    match ← host (execAll context body).run with
    | .ok returned => pure ⟨.returned (← host (returned.mapM Report.ofValue)), returned⟩
    | .error e =>
      let report ← Report.ofError e
      if let some name := keepError then
        update fun env => { env with errors := env.errors.set name e }
      pure ⟨.error report, ← execAll context handler⟩
  | .catchPanic body => do
    match ← host (Program.guard (execAll context body).run) with
    | .ok (.ok returned) => pure ⟨.nothing, returned⟩
    | .ok (.error e) => throw e
    | .error text => answering (.panicked text)
  | .ifDepth limit below otherwise => do
    if (← read .stack).depth < limit then pure ⟨.flag true, ← execAll context below⟩
    else pure ⟨.flag false, ← execAll context otherwise⟩
  | .times count body => do pure ⟨.nothing, ← repeated (execAll context body) count⟩
  | .withStack stack body => do
    let s ← named (·.callStacks) stack
    let returned ← ExceptT.mk (Program.on s (execAll none body).run)
    pure ⟨.stack (← host (Program.on s (Program.read .stack))), returned⟩
  | .labelled label step => do
    match ← host (step.exec context).run with
    | .ok finish =>
      update fun env => { env with log := env.log.push (label, finish.answer) }
      pure finish
    | .error e =>
      let report ← Report.ofError e
      update fun env => { env with log := env.log.push (label, .error report) }
      throw e

/-- Runs the steps of a body in order, until one ends the body. -/
def execAll (context : Option CallContext) : List Step → Work (Option Value)
  | [] => pure none
  | step :: rest => do
    match (← step.exec context).returned with
    | some v => pure (some v)
    | none => execAll context rest

end

end Realms.Script
