import Realms.Frame
import Realms.Value

/-!
Errors: a cause, the function at whose boundary an exhausted stack was noticed, and the functions
that the error passed through. An exhausted stack is a signal of its own until a boundary turns it
into a range error.
-/

namespace Realms

inductive Cause where
  | message (text : String)
  | thrown (value : Value)
  | type (text : String)
  | range (text : String)
  | reference (text : String)
  | exhausted (depth : Nat)
  | unknownRealm (realm : RealmId)
  deriving DecidableEq

structure Error where
  cause : Cause
  origin : Option Frame
  /-- The functions passed through, the latest first. -/
  passed : List Frame
  deriving DecidableEq

namespace Cause

/-- The text of the range error that stands for an exhausted stack. -/
def overflowText : String := "Maximum call stack size exceeded"

/-- The text of a cause, given the texts of values. -/
def text (valueText : Value → String) : Cause → String
  | .message text => text
  | .thrown value => "Uncaught " ++ valueText value
  | .type text => "TypeError: " ++ text
  | .range text => "RangeError: " ++ text
  | .reference text => "ReferenceError: " ++ text
  | .exhausted depth => "Native stack exhausted at call depth " ++ toString depth
  | .unknownRealm realm => "Realm " ++ realm.text ++ " isn't registered with this engine"

end Cause

namespace Error

/-- An error where it is raised: no origin, and nothing passed through yet. -/
def of (cause : Cause) : Error := ⟨cause, none, []⟩

/-- The functions that the error passed through, innermost first. -/
def trace (e : Error) : List Frame := e.passed.reverse

@[simp] theorem trace_of (cause : Cause) : (of cause).trace = [] := rfl

def unsafeInteger (n : Int) : Error :=
  of (.range (toString n ++ " is outside of the safe integer range"))

def notFunction (typeName : String) : Error := of (.type (typeName ++ " is not a function"))

def notDefined (name : String) : Error := of (.reference (name ++ " is not defined"))

def unreadable (target name : String) : Error :=
  of (.type ("Cannot read properties of " ++ target ++ " (reading '" ++ name ++ "')"))

def tooManyRealms : Error := of (.message "The maximum number of realms has been reached")

def isRange (e : Error) : Bool := match e.cause with
  | .range _ => true
  | _ => false

/-- Whether the error says that the stack ran out, whoever raised it. -/
def isOverflow (e : Error) : Bool := match e.cause with
  | .range text => text == Cause.overflowText
  | _ => false

def isExhausted (e : Error) : Bool := match e.cause with
  | .exhausted _ => true
  | _ => false

def thrown? (e : Error) : Option Value := match e.cause with
  | .thrown value => some value
  | _ => none

/-- The range error that an exhaustion signal becomes at a boundary; its trace is kept. -/
def overflow (signal : Error) (origin : Frame) : Error :=
  ⟨.range Cause.overflowText, some origin, signal.passed⟩

@[simp] theorem trace_overflow (signal : Error) (origin : Frame) :
    (signal.overflow origin).trace = signal.trace := rfl

/-- What a boundary lets through: an exhaustion signal becomes an overflow, and all else is
unchanged. -/
def atBoundary (e : Error) (origin : Frame) : Error :=
  if e.isExhausted then e.overflow origin else e

/-- The error after it has passed through one more function. -/
def passing (e : Error) (frame : Frame) : Error := { e with passed := frame :: e.passed }

@[simp] theorem trace_passing (e : Error) (frame : Frame) :
    (e.passing frame).trace = e.trace ++ [frame] := by
  simp [trace, passing]

/-- The whole text: the cause, where it was raised, and one line for each function passed. -/
def text (valueText : Value → String) (e : Error) : String :=
  let origin := match e.origin with
    | some frame => " (raised in " ++ frame.text ++ ")"
    | none => ""
  e.trace.foldl (fun text frame => text ++ "\n--- at " ++ frame.text)
    (e.cause.text valueText ++ origin)

end Error

/-- A safe integer, or the range error for any other. -/
def SafeInteger.ofInt (n : Int) : Except Error SafeInteger :=
  match ofInt? n with
  | some safe => .ok safe
  | none => .error (.unsafeInteger n)

end Realms
