import Realms.Store.Property

/-!
The boundary between objects and primitives. All kinds of value have a fixed place on one side of
it except the foreign ones, which are asked, and whose record of questions grows by it.
-/

namespace Realms

/-- What reading a member of a foreign value comes to: an object is asked for it, null cannot be
read from, and any other primitive has no members. -/
def Foreign.read (f : Foreign) (name : String) : Inquiry (Except Error Value) := do
  if ← f.isObject then
    let value ← f.readMember name
    pure (.ok (value.getD .undefined))
  else if ← f.ask .null then pure (.error (.unreadable f.text name))
  else pure (.ok .undefined)

namespace Store

/-- Puts questions to a foreign value and notes them. -/
def inquire? {α : Type} (st : Store) (f : ForeignId) (inquiry : Foreign → Inquiry α) :
    Option (α × Store) := do
  let i := inquiry (← st.foreign? f)
  some (i.answer, { st with foreigns := st.foreigns.modify f.index (·.note i.asked) })

def isObject? (st : Store) : Value → Option (Bool × Store)
  | .object _ => some (true, st)
  | .foreign f => st.inquire? f Foreign.isObject
  | _ => some (false, st)

def isCallable? (st : Store) : Value → Option (Bool × Store)
  | .object o => do some ((← st.object? o).isCallable, st)
  | .foreign f => st.inquire? f Foreign.isCallable
  | _ => some (false, st)

/-- The answer of the type operator. -/
def typeTag? (st : Store) : Value → Option (TypeTag × Store)
  | .undefined => some (.undefined, st)
  | .null => some (.object, st)
  | .boolean _ => some (.boolean, st)
  | .small _ | .large _ | .double _ => some (.number, st)
  | .symbol _ => some (.symbol, st)
  | .bigInt _ => some (.bigint, st)
  | .string _ => some (.string, st)
  | .object o => do some (if (← st.object? o).isCallable then .function else .object, st)
  | .foreign f => st.inquire? f Foreign.typeTag

/-- Reads a named property of any value. Only null and undefined values, foreign ones included,
refuse. -/
def read? (st : Store) (target : Value) (name : String) : Option (Except Error Value × Store) :=
  match target with
  | .object o => do
    let _ ← st.object? o
    some (.ok ((st.property? o name).getD .undefined), st)
  | .foreign f => st.inquire? f (Foreign.read · name)
  | .null | .undefined => some (.error (.unreadable (st.text target) name), st)
  | _ => some (.ok .undefined, st)

end Store

end Realms
