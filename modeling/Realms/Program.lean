import Realms.Operation

/-!
Host programs: finite dialogues with a store that may define functions, call them, cross into other
realms, work on other stacks, and panic. A program runs on one stack at a time and has a memory of
its own, which outlives every call.
-/

namespace Realms

/-- What a function body is given: the function that runs, and the arguments of the call. -/
structure CallContext where
  function : ObjectId
  arguments : List Value

namespace CallContext

/-- An argument that was not given is undefined. -/
def argument (c : CallContext) (i : Nat) : Value := c.arguments.getD i .undefined

end CallContext

/-- A program with memory `σ`. A call and a crossing answer with a value or an error; a panic ends
everything up to the next `guard`. -/
inductive Program (σ : Type) : Type → Type 1 where
  | done {α : Type} (a : α) : Program σ α
  | panic {α : Type} (text : String) : Program σ α
  | recalling {α : Type} (k : σ → Program σ α) : Program σ α
  | remembering {α : Type} (memory : σ) (k : Program σ α) : Program σ α
  | reading {α β : Type} (r : Reading β) (k : β → Program σ α) : Program σ α
  | acting {α β : Type} (a : Action β) (k : β → Program σ α) : Program σ α
  /-- Makes a function object with the given body. -/
  | defining {α : Type} (realm : RealmId) (name : String) (location : Option Location)
      (body : CallContext → Program σ (Except Error Value)) (k : ObjectId → Program σ α) :
      Program σ α
  | calling {α : Type} (callee : Value) (arguments : List Value)
      (k : Except Error Value → Program σ α) : Program σ α
  /-- Runs a body with a realm active; the frame says where an overflow was noticed. -/
  | crossing {α β : Type} (home : RealmId) (origin : Frame) (body : Program σ (Except Error β))
      (k : Except Error β → Program σ α) : Program σ α
  | onStack {α β : Type} (s : StackId) (body : Program σ β) (k : β → Program σ α) : Program σ α
  /-- Catches a panic of the body. -/
  | guarding {α β : Type} (body : Program σ β) (k : Except String β → Program σ α) : Program σ α

namespace Program

variable {σ α β : Type}

def bind (p : Program σ α) (f : α → Program σ β) : Program σ β :=
  match p with
  | .done a => f a
  | .panic text => .panic text
  | .recalling k => .recalling fun m => (k m).bind f
  | .remembering m k => .remembering m (k.bind f)
  | .reading r k => .reading r fun a => (k a).bind f
  | .acting a k => .acting a fun b => (k b).bind f
  | .defining realm name location body k =>
    .defining realm name location body fun o => (k o).bind f
  | .calling callee arguments k => .calling callee arguments fun r => (k r).bind f
  | .crossing home origin body k => .crossing home origin body fun r => (k r).bind f
  | .onStack s body k => .onStack s body fun r => (k r).bind f
  | .guarding body k => .guarding body fun r => (k r).bind f

instance : Monad (Program σ) where
  pure := .done
  bind := .bind

/-- The host memory. -/
def memory : Program σ σ := .recalling .done

def modifyMemory (f : σ → σ) : Program σ Unit := .recalling fun m => .remembering (f m) (.done ())

def read (r : Reading α) : Program σ α := .reading r .done

def act (a : Action α) : Program σ α := .acting a .done

def define (realm : RealmId) (name : String) (location : Option Location)
    (body : CallContext → Program σ (Except Error Value)) : Program σ ObjectId :=
  .defining realm name location body .done

def call (callee : Value) (arguments : List Value) : Program σ (Except Error Value) :=
  .calling callee arguments .done

def cross (home : RealmId) (origin : Frame) (body : Program σ (Except Error α)) :
    Program σ (Except Error α) :=
  .crossing home origin body .done

/-- Runs a body with the realm of an object active. -/
def crossTo (target : ObjectId) (body : Program σ (Except Error α)) :
    Program σ (Except Error α) := do
  let object ← read (.object target)
  cross object.realm object.frame body

def on (s : StackId) (body : Program σ α) : Program σ α := .onStack s body .done

def guard (body : Program σ α) : Program σ (Except String α) := .guarding body .done

/-- Makes a function in the active realm. -/
def defineHere (name : String) (body : CallContext → Program σ (Except Error Value)) :
    Program σ ObjectId := do
  define (← read .stack).active.id name none body

end Program

end Realms
