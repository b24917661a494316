import Realms.Store

/-!
What the steps of a script answer. An answer holds the texts of the values in it, as they were when
the step finished.
-/

namespace Realms.Script

/-- A value as an answer shows it; an object with its realm. -/
structure ValueReport where
  value : Value
  text : String
  realm : Option RealmId
  deriving DecidableEq

/-- An error with the texts of its cause and of the whole, and the value thrown, if one was. -/
structure ErrorReport where
  error : Error
  message : String
  text : String
  thrown : Option ValueReport
  deriving DecidableEq

/-- The report of an error, given that of the value it throws, if it throws one. -/
def ErrorReport.of (e : Error) (thrown : Option ValueReport) : ErrorReport :=
  let valueText (_ : Value) : String := (thrown.map (·.text)).getD ""
  ⟨e, e.cause.text valueText, e.text valueText, thrown⟩

/-- What there is to say of a value beyond what holds for every kind. -/
inductive Detail where
  | none
  | object (object : Object)
  | foreign (origin : Origin) (isObject : Bool)

/-- A value together with the answers to all the questions that can be asked of it. -/
structure Description where
  report : ValueReport
  isObject : Bool
  isObjectAgain : Bool
  isCallable : Bool
  typeTag : TypeTag
  typeName : String
  detail : Detail

/-- How two values of one kind compare, as far as that kind can be compared. -/
structure Comparison where
  equal : Option Bool
  equalText : Option Bool
  same : Option Bool
  deriving DecidableEq

/-- How many different ones there are among some values. -/
structure Diversity where
  kinds : Nat
  symbols : Nat
  strings : Nat
  bigInts : Nat
  integers : Nat
  realms : Nat
  deriving DecidableEq

inductive Answer where
  | nothing
  | flag (b : Bool)
  | text (s : String)
  | texts (ss : List String)
  | value (v : ValueReport)
  | values (vs : List ValueReport)
  | realm (r : Realm)
  | realmIds (rs : List RealmId)
  | engine (settings : Settings) (registry : Registry)
  | lookup (owns : Bool) (found : Option Realm)
  | realmComparison (equal equalIds : Bool) (order : Ordering)
  | description (d : Description)
  | debug (value : String) (objectClass symbol : Option String)
  | comparison (c : Option Comparison)
  | diversity (d : Diversity)
  | error (e : ErrorReport)
  /-- An error made to be looked at, not raised. -/
  | cause (e : ErrorReport)
  | stack (s : Stack)
  | stackInFull (s : Stack)
  | scope (s : Scope)
  | returned (v : Option ValueReport)
  | panicked (text : String)

end Realms.Script
