import Realms.Program

/-!
Running a program. A machine is a store together with the bodies of its functions and the host's
memory. Recursion follows the program, and enters the body of a called function only while a bound
on nested calls allows it; running out of that bound is an outcome of its own that nothing catches.
-/

namespace Realms

structure Machine (σ : Type) where
  store : Store
  code : Array (CallContext → Program σ (Except Error Value))
  memory : σ

/-- How a run ends. -/
inductive Outcome (α : Type) where
  | done (a : α)
  | panicked (text : String)
  | outOfFuel

def Outcome.map {α β : Type} (f : α → β) : Outcome α → Outcome β
  | .done a => .done (f a)
  | .panicked text => .panicked text
  | .outOfFuel => .outOfFuel

/-- A run is a function of the machine and the stack. -/
abbrev Run (σ α : Type) := StackId → Machine σ → Outcome α × Machine σ

/-- How the body of a function is run. -/
abbrev Invocation (σ : Type) := CodeId → CallContext → Run σ (Except Error Value)

/-- The text of the panic on a handle that was never given out. -/
def unknownHandle : String := "unknown handle"

variable {σ α β γ : Type}

/-- Goes on with a result, and with nothing else. -/
def Outcome.andThen (r : Outcome α × Machine σ) (k : α → Machine σ → Outcome β × Machine σ) :
    Outcome β × Machine σ :=
  match r with
  | (.done a, m) => k a m
  | (.panicked text, m) => (.panicked text, m)
  | (.outOfFuel, m) => (.outOfFuel, m)

theorem Outcome.andThen_assoc (r : Outcome α × Machine σ)
    (f : α → Machine σ → Outcome β × Machine σ) (g : β → Machine σ → Outcome γ × Machine σ) :
    andThen (andThen r f) g = andThen r fun a m => andThen (f a m) g := by
  obtain ⟨outcome, m⟩ := r
  cases outcome <;> rfl

namespace Run

/-- Runs a body with `home` active. However the body ends, the scope is left; an exhaustion signal
becomes an overflow with the given origin, and all else passes unchanged. -/
def crossing (rule : EntryRule) (home : RealmId) (origin : Frame)
    (body : Run σ (Except Error α)) : Run σ (Except Error α) := fun s m =>
  match m.store.enter? rule s home with
  | none => (.panicked unknownHandle, m)
  | some (.error e, store) => (.done (.error e), { m with store })
  | some (.ok scope, store) =>
    let (outcome, m) := body s { m with store := store.beginCrossing scope }
    (outcome.map (·.mapError (·.atBoundary origin)),
      { m with store := m.store.endCrossing scope })

/-- Runs a body as one more call in progress. A panic leaves the count as it is. -/
def counted (body : Run σ (Except Error Value)) : Run σ (Except Error Value) := fun s m =>
  match m.store.pushCall? s with
  | none => (.panicked unknownHandle, m)
  | some (.error e) => (.done (.error e), m)
  | some (.ok store) =>
    Outcome.andThen (body s { m with store }) fun result m =>
      (.done result, { m with store := m.store.popCall s })

/-- Refuses a value that is not a function object. -/
def refusing (callee : Value) : Run σ (Except Error α) := fun _ m =>
  (.done (.error (.notFunction (m.store.typeName callee))), m)

/-- Calls a value. Only function objects can be called; the function runs with its home realm
active, and an error that comes out of the call has passed through the function. -/
def calling (rule : EntryRule) (invoke : Invocation σ) (callee : Value) (arguments : List Value) :
    Run σ (Except Error Value) := fun s m =>
  match callee with
  | .object o =>
    match m.store.object? o with
    | none => (.panicked unknownHandle, m)
    | some object =>
      match object.function? with
      | none => refusing callee s m
      | some f =>
        let (outcome, m) :=
          crossing rule object.realm object.frame (counted (invoke f.code ⟨o, arguments⟩)) s m
        (outcome.map (·.mapError (·.passing object.frame)), m)
  | _ => refusing callee s m

/-- Makes a function object and keeps its body. -/
def defining (realm : RealmId) (name : String) (location : Option Location)
    (body : CallContext → Program σ (Except Error Value)) : Run σ ObjectId := fun _ m =>
  match m.store.newFunction? realm ⟨name, location, ⟨m.code.size⟩⟩ with
  | none => (.panicked unknownHandle, m)
  | some (o, store) => (.done o, { m with store, code := m.code.push body })

def reading (r : Reading α) : Run σ α := fun s m =>
  match r.eval s m.store with
  | none => (.panicked unknownHandle, m)
  | some a => (.done a, m)

def acting (rule : EntryRule) (a : Action α) : Run σ α := fun s m =>
  match a.perform rule s m.store with
  | none => (.panicked unknownHandle, m)
  | some (answer, store) => (.done answer, { m with store })

/-- Runs a body, and turns its panic into an answer. -/
def guarding (body : Run σ α) : Run σ (Except String α) := fun s m =>
  match body s m with
  | (.done a, m) => (.done (.ok a), m)
  | (.panicked text, m) => (.done (.error text), m)
  | (.outOfFuel, m) => (.outOfFuel, m)

end Run

namespace Program

/-- Runs a program, given how the bodies of functions are run. -/
def runWith (rule : EntryRule) (invoke : Invocation σ) : {α : Type} → Program σ α → Run σ α
  | _, .done a, _, m => (.done a, m)
  | _, .panic text, _, m => (.panicked text, m)
  | _, .recalling k, s, m => (k m.memory).runWith rule invoke s m
  | _, .remembering memory k, s, m => k.runWith rule invoke s { m with memory }
  | _, .reading r k, s, m =>
    Outcome.andThen (Run.reading r s m) fun a m => (k a).runWith rule invoke s m
  | _, .acting a k, s, m =>
    Outcome.andThen (Run.acting rule a s m) fun b m => (k b).runWith rule invoke s m
  | _, .defining realm name location body k, s, m =>
    Outcome.andThen (Run.defining realm name location body s m) fun o m =>
      (k o).runWith rule invoke s m
  | _, .calling callee arguments k, s, m =>
    Outcome.andThen (Run.calling rule invoke callee arguments s m) fun r m =>
      (k r).runWith rule invoke s m
  | _, .crossing home origin body k, s, m =>
    Outcome.andThen (Run.crossing rule home origin (body.runWith rule invoke) s m) fun r m =>
      (k r).runWith rule invoke s m
  | _, .onStack t body k, s, m =>
    Outcome.andThen (body.runWith rule invoke t m) fun r m => (k r).runWith rule invoke s m
  | _, .guarding body k, s, m =>
    Outcome.andThen (Run.guarding (body.runWith rule invoke) s m) fun r m =>
      (k r).runWith rule invoke s m

/-- A sequence of two programs runs as one after the other. -/
theorem runWith_bind (rule : EntryRule) (invoke : Invocation σ) (p : Program σ α)
    (f : α → Program σ β) (s : StackId) (m : Machine σ) :
    (p.bind f).runWith rule invoke s m =
      Outcome.andThen (p.runWith rule invoke s m) fun a m => (f a).runWith rule invoke s m := by
  induction p generalizing s m with
  | done | panic => rfl
  | recalling _ ih => exact ih _ _ _ _
  | remembering _ _ ih => exact ih _ _ _
  | reading _ _ ih | acting _ _ ih | calling _ _ _ ih =>
    simp only [bind, runWith, Outcome.andThen_assoc, ih]
  | defining _ _ _ _ _ _ ih | crossing _ _ _ _ _ ih | onStack _ _ _ _ ih | guarding _ _ _ ih =>
    simp only [bind, runWith, Outcome.andThen_assoc, ih]

/-- How bodies are run when `fuel` more calls may be nested. -/
def invocation (rule : EntryRule) : Nat → Invocation σ
  | 0 => fun _ _ _ m => (.outOfFuel, m)
  | fuel + 1 => fun c context s m =>
    match m.code[c.index]? with
    | none => (.panicked unknownHandle, m)
    | some body => (body context).runWith rule (invocation rule fuel) s m

/-- Runs a program in which at most `fuel` calls are nested. -/
def run (rule : EntryRule) (fuel : Nat) (p : Program σ α) : Run σ α :=
  p.runWith rule (invocation rule fuel)

end Program

end Realms
