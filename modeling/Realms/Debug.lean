import Realms.Store
import Realms.Text.Quoted

/-!
Diagnostic texts, which show the kind of a value and how it is stored. Where a thing is known by its
place in memory the text holds the word for an address.
-/

namespace Realms

/-- Stands for an address, which differs from run to run. -/
def addressText : String := "ADDR"

/-- The address of a function's body is shown with its kind. -/
def codeAddressText : String := "Address(" ++ addressText ++ ")"

def Symbol.debugText (s : Symbol) : String := s.text ++ " @ " ++ addressText

def ObjectClass.debugText : ObjectClass → String
  | .ordinary => "Ordinary"
  | .global => "Global"
  | .function f => "Function(native function '" ++ f.name ++ "': " ++ codeAddressText ++ ")"

def Object.debugText (o : Object) : String :=
  "ManagedObject (" ++ o.objectClass.name ++ " in " ++ o.realm.text ++ " @ " ++ addressText ++ ")"

def Foreign.debugText (f : Foreign) : String :=
  "ForeignValue (" ++ f.typeName ++ " @ " ++ addressText ++ ")"

/-- The diagnostic text of a value that is stored in place, from its kind and its own text. -/
def Value.debugText (v : Value) (text : String) : String :=
  v.kind.name ++ "(" ++ (if v.kind = .string then Text.quoted text else text) ++ ")"

end Realms
