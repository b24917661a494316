/-!
Places in source text, and the frames that an error collects on its way out of nested calls.
-/

namespace Realms

/-- A line and a column, both counted from one, in a named source or an unnamed one. -/
structure Location where
  path : Option String
  line : Nat
  column : Nat
  deriving DecidableEq

def Location.text (l : Location) : String :=
  let place := toString l.line ++ ":" ++ toString l.column
  match l.path with
  | some path => path ++ ":" ++ place
  | none => place

/-- A function that an error was raised in or passed through. -/
structure Frame where
  name : String
  location : Option Location
  deriving DecidableEq

/-- A nameless function is called anonymous, and one without a location native. -/
def Frame.text (f : Frame) : String :=
  let name := if f.name = "" then "<anonymous>" else f.name
  let place := match f.location with
    | some l => l.text
    | none => "native"
  name ++ " (" ++ place ++ ")"

end Realms
