import Realms.Handle
import Realms.Number.SafeInteger

/-!
Values. A number has one of three representations, the narrowest that holds it. Strings and symbols
carry the allocation that made them, so that two copies of one string can be told from two equal
strings; symbols are compared by it alone.
-/

namespace Realms

/-- Immutable text that is shared between its copies. -/
structure SharedString where
  text : String
  allocation : Nat
  deriving DecidableEq

/-- A unique symbol. -/
structure Symbol where
  description : Option String
  allocation : Nat
  deriving DecidableEq

def Symbol.text (s : Symbol) : String := "Symbol(" ++ s.description.getD "" ++ ")"

inductive Value where
  | undefined
  | null
  | boolean (b : Bool)
  | small (n : Int32)
  | large (n : SafeInteger)
  | double (x : Double)
  | symbol (s : Symbol)
  | bigInt (n : Int)
  | string (s : SharedString)
  | object (o : ObjectId)
  | foreign (f : ForeignId)
  deriving DecidableEq

namespace Value

/-- The representation of a value, without its content. -/
inductive Kind where
  | undefined
  | null
  | boolean
  | small
  | large
  | double
  | symbol
  | bigInt
  | string
  | object
  | foreign
  deriving DecidableEq

def Kind.name : Kind → String
  | .undefined => "Undefined"
  | .null => "Null"
  | .boolean => "Boolean"
  | .small => "SmallInt"
  | .large => "LargeInt"
  | .double => "Float64"
  | .symbol => "Symbol"
  | .bigInt => "BigInt"
  | .string => "String"
  | .object => "Object"
  | .foreign => "Foreign"

def kind : Value → Kind
  | .undefined => .undefined
  | .null => .null
  | .boolean _ => .boolean
  | .small _ => .small
  | .large _ => .large
  | .double _ => .double
  | .symbol _ => .symbol
  | .bigInt _ => .bigInt
  | .string _ => .string
  | .object _ => .object
  | .foreign _ => .foreign

/-- An integer in its narrowest representation: 32 bits, else a safe integer, else a double, which
is the only one that rounds. -/
def ofInt (n : Int) : Value :=
  match int32? n, SafeInteger.ofInt? n with
  | some n, _ => .small n
  | none, some n => .large n
  | none, none => .double (.ofInt n)

def isNullish : Value → Bool
  | .undefined | .null => true
  | _ => false

end Value

/-- The text of an unbounded integer value. -/
def bigIntText (n : Int) : String := toString n ++ "n"

end Realms
