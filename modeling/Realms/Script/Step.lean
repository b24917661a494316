import Realms.Foreign
import Realms.Frame

/-!
Scripts: trees of steps over named things. A name means what it last was given to, at the time when
the step runs. The bodies of functions and crossings are lists of the same steps.
-/

namespace Realms.Script

/-- A value as a script writes it. A string, a symbol and a foreign value are new each time. -/
inductive Literal where
  | undefined
  | null
  | boolean (b : Bool)
  | small (n : Int32)
  /-- An integer in its narrowest representation. -/
  | integer (n : Int)
  /-- A safe integer in its own representation; any other fails. -/
  | safe (n : Int)
  | safe32 (n : Int32)
  | double (x : Double)
  | symbol (description : Option String)
  | bigInt (n : Int)
  | string (text : String)
  | saved (name : String)
  /-- An argument of the running function. -/
  | argument (index : Nat)
  /-- The running function. -/
  | self
  | shaped (shape : Foreign.Shape) (members : List (String × Int))
  /-- A recording value, whose record is kept under a name. -/
  | recording (null boolean string number : Bool) (record : Option String)
  | bare (typeName : String)
  | host (typeName : String) (answers : Answers) (members : List (String × Literal))

/-- An error as a script writes it. -/
inductive Fault where
  /-- A message joined from pieces. -/
  | message (pieces : List String)
  | thrown (value : Literal)
  | type (text : String)
  | range (text : String)
  | overflow
  | reference (text : String)
  | exhausted (depth : Nat)
  | unknownRealm (realm : String)
  | saved (name : String)
  /-- What an error becomes when it is taken for an exhaustion signal at a boundary. -/
  | overflowing (fault : Fault) (origin : Frame)

/-- The objects that a realm gives. -/
inductive RealmObject where
  | new
  | global
  | objectPrototype
  | functionPrototype

/-- One step. The last argument of a step that makes something is the name to keep it under. -/
inductive Step where
  | engine (keep : String) (mainRealm : Option String) (maxDepth : Option Nat)
  | engineClone (engine keep : String)
  | sameEngine (a b : String)
  | engineInfo (engine : String)
  | mainRealm (engine : String) (keep : Option String)
  | createRealm (engine name : String) (keep : Option String)
  | realmByName (engine name : String) (keep : Option String)
  | realmById (engine realm : String) (keep : Option String)
  | expectRealm (engine realm : String) (keep : Option String)
  | compareRealms (a b : String)
  | realmObject (realm : String) (which : RealmObject) (keep : Option String)
  | function (realm name : String) (body : List Step) (location : Option Location)
      (keep : Option String)
  | recursiveFunction (realm name : String) (keep : Option String)
  | failingFunction (realm text : String) (keep : Option String)
  | probeFunction (probe realm name : String) (keep : Option String)
  | probeSeen (probe : String)
  | value (value : Literal) (keep : Option String)
  | describe (value : Literal)
  | isObject (value : Literal)
  | isCallable (value : Literal)
  | typeOf (value : Literal)
  | debug (value : Literal)
  | compare (a b : Literal)
  | distinct (values : List Literal)
  | queries (record : String)
  | error (fault : Fault)
  | set (target value : Literal) (key : String)
  | get (target : Literal) (key : String) (keep : Option String)
  | getOwn (target : Literal) (key : String) (keep : Option String)
  | hasOwn (target : Literal) (key : String)
  | keys (target : Literal)
  | prototype (target : Literal) (keep : Option String)
  | stack (engine keep : String)
  | state
  | stackEngine (engine : String)
  | currentRealm (keep : Option String)
  | call (callee : Literal) (arguments : List Literal) (keep : Option String)
  | across (target : Literal) (body : List Step) (keep : Option String)
  | inHome (realm : String) (body : List Step) (origin : Frame) (keep : Option String)
  | getGlobal (name : String) (keep : Option String)
  | setGlobal (value : Literal) (name : String)
  | stackObject (keep : Option String)
  | stackFunction (name : String) (body : List Step) (keep : Option String)
  | getProperty (target : Literal) (key : String) (keep : Option String)
  | scopeEnter (realm keep : String)
  | scopeLeave (scope : String)
  | scopeDrop (scope : String)
  | arguments
  /-- Ends the body with a value. -/
  | returns (value : Literal)
  | raise (fault : Fault)
  | panic (text : String)
  | attempt (body : List Step) (keepError : Option String) (handler : List Step)
  | catchPanic (body : List Step)
  | ifDepth (limit : Nat) (below otherwise : List Step)
  | times (count : Nat) (body : List Step)
  | withStack (stack : String) (body : List Step)
  /-- A step whose result goes into the log under a label. -/
  | labelled (label : String) (step : Step)

end Realms.Script
