import Realms.Value

/-!
Foreign values. The store does not look inside one: it asks yes-or-no questions and, of one that is
no primitive, for named members. Every question asked is noted.
-/

namespace Realms

/-- The questions that a foreign value answers with yes or no. -/
inductive Predicate where
  | null
  | boolean
  | string
  | number
  | executable
  deriving DecidableEq

def Predicate.name : Predicate → String
  | .null => "null"
  | .boolean => "boolean"
  | .string => "string"
  | .number => "number"
  | .executable => "executable"

/-- One question put to a foreign value. -/
inductive Query where
  | predicate (p : Predicate)
  | member (name : String)
  deriving DecidableEq

/-- The questions that a record keeps: all for predicates but executability. -/
def recordOf (queries : List Query) : List Predicate := queries.filterMap fun
  | .predicate .executable => none
  | .predicate p => some p
  | .member _ => none

/-- The answers of a foreign value; several may be yes. -/
structure Answers where
  null : Bool
  boolean : Bool
  string : Bool
  number : Bool
  executable : Bool
  deriving DecidableEq

def Answers.none : Answers := ⟨false, false, false, false, false⟩

def Answers.to (a : Answers) : Predicate → Bool
  | .null => a.null
  | .boolean => a.boolean
  | .string => a.string
  | .number => a.number
  | .executable => a.executable

/-- How a foreign value was made. A bare one answers no question, a host one has answers and members
of any kind, a shaped one imitates a single shape, and a recording one is there for its record. -/
inductive Origin where
  | bare
  | host
  | shaped
  | recording
  deriving DecidableEq

structure Foreign where
  typeName : String
  origin : Origin
  answers : Answers
  members : List (String × Value)
  /-- The questions asked so far, the latest first. -/
  asked : List Query
  deriving DecidableEq

namespace Foreign

/-- The questions asked so far, in order. -/
def history (f : Foreign) : List Query := f.asked.reverse

/-- Notes questions in the order in which they were asked. -/
def note (f : Foreign) (queries : List Query) : Foreign :=
  { f with asked := queries.reverse ++ f.asked }

@[simp] theorem history_note (f : Foreign) (queries : List Query) :
    (f.note queries).history = f.history ++ queries := by
  simp [history, note]

def text (f : Foreign) : String := "[foreign " ++ f.typeName ++ "]"

def bare (typeName : String) : Foreign := ⟨typeName, .bare, .none, [], []⟩

def host (typeName : String) (answers : Answers) (members : List (String × Value)) : Foreign :=
  ⟨typeName, .host, answers, members, []⟩

/-- The shapes of shaped values; an array and an unknown shape answer no question. -/
inductive Shape where
  | null
  | boolean
  | string
  | number
  | array
  | executable
  | unknown
  deriving DecidableEq

def Shape.answers (s : Shape) : Answers :=
  ⟨s = .null, s = .boolean, s = .string, s = .number, s = .executable⟩

def shaped (shape : Shape) (members : List (String × Int)) : Foreign :=
  ⟨"TestForeign", .shaped, shape.answers, members.map fun (n, v) => (n, .ofInt v), []⟩

def recording (null boolean string number : Bool) : Foreign :=
  ⟨"RecordingForeign", .recording, ⟨null, boolean, string, number, false⟩, [], []⟩

/-- The predicates asked so far that a recording value notes. -/
def recorded (f : Foreign) : List Predicate := recordOf f.history

end Foreign

/-- An answer together with the questions that were asked to find it. -/
structure Inquiry (α : Type) where
  answer : α
  asked : List Query

namespace Inquiry

instance : Monad Inquiry where
  pure a := ⟨a, []⟩
  bind i f := ⟨(f i.answer).answer, i.asked ++ (f i.answer).asked⟩

@[simp] theorem answer_pure {α : Type} (a : α) : (pure a : Inquiry α).answer = a := rfl

@[simp] theorem asked_pure {α : Type} (a : α) : (pure a : Inquiry α).asked = [] := rfl

@[simp] theorem answer_bind {α β : Type} (i : Inquiry α) (f : α → Inquiry β) :
    (i >>= f).answer = (f i.answer).answer := rfl

@[simp] theorem asked_bind {α β : Type} (i : Inquiry α) (f : α → Inquiry β) :
    (i >>= f).asked = i.asked ++ (f i.answer).asked := rfl

end Inquiry

namespace Foreign

def ask (f : Foreign) (p : Predicate) : Inquiry Bool := ⟨f.answers.to p, [.predicate p]⟩

/-- The first member of that name. -/
def readMember (f : Foreign) (name : String) : Inquiry (Option Value) :=
  ⟨f.members.lookup name, [.member name]⟩

/-- A foreign value is an object unless it calls itself null, a boolean, a string or a number. The
questions are put in this order, and the first yes ends them. -/
def isObject (f : Foreign) : Inquiry Bool := do
  if ← f.ask .null then pure false
  else if ← f.ask .boolean then pure false
  else if ← f.ask .string then pure false
  else if ← f.ask .number then pure false
  else pure true

/-- Only objects are asked whether they can be executed. -/
def isCallable (f : Foreign) : Inquiry Bool := do
  if ← f.isObject then f.ask .executable else pure false

end Foreign

/-- The answers of the type operator. -/
inductive TypeTag where
  | undefined
  | object
  | boolean
  | number
  | symbol
  | bigint
  | string
  | function
  deriving DecidableEq

def TypeTag.name : TypeTag → String
  | .undefined => "undefined"
  | .object => "object"
  | .boolean => "boolean"
  | .number => "number"
  | .symbol => "symbol"
  | .bigint => "bigint"
  | .string => "string"
  | .function => "function"

namespace Foreign

def typeTag (f : Foreign) : Inquiry TypeTag := do
  if ← f.ask .null then pure .object
  else if ← f.ask .boolean then pure .boolean
  else if ← f.ask .string then pure .string
  else if ← f.ask .number then pure .number
  else if ← f.ask .executable then pure .function
  else pure .object

end Foreign

end Realms
