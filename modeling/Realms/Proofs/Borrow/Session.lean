import Realms.Program.Sample
import Realms.Run

/-! Sessions: programs of the runtime that may also use probes and let go of engines, on machines
whose foreign values answer by code of their own. That code is a session too, so that it may use the
runtime again while a question is being put. A session that lets go of nothing is a program, where
foreign values answer from what they were made with. -/

namespace Realms.Borrow

/-- A probe, which keeps the realms that were active when its functions were called. -/
structure ProbeId where
  index : Nat
  deriving DecidableEq

inductive Session (σ : Type) : Type → Type 1 where
  | done {α : Type} (a : α) : Session σ α
  | panic {α : Type} (text : String) : Session σ α
  | recalling {α : Type} (k : σ → Session σ α) : Session σ α
  | remembering {α : Type} (memory : σ) (k : Session σ α) : Session σ α
  | reading {α β : Type} (r : Reading β) (k : β → Session σ α) : Session σ α
  | acting {α β : Type} (a : Action β) (k : β → Session σ α) : Session σ α
  | defining {α : Type} (realm : RealmId) (name : String) (location : Option Location)
      (body : CallContext → Session σ (Except Error Value)) (k : ObjectId → Session σ α) :
      Session σ α
  | calling {α : Type} (callee : Value) (arguments : List Value)
      (k : Except Error Value → Session σ α) : Session σ α
  | crossing {α β : Type} (home : RealmId) (origin : Frame) (body : Session σ (Except Error β))
      (k : Except Error β → Session σ α) : Session σ α
  | onStack {α β : Type} (s : StackId) (body : Session σ β) (k : β → Session σ α) : Session σ α
  | guarding {α β : Type} (body : Session σ β) (k : Except String β → Session σ α) : Session σ α
  /-- Notes the active realm in the memory, as a function of a probe does. -/
  | noting {α : Type} (p : ProbeId) (note : RealmId → σ → σ) (k : Session σ α) : Session σ α
  /-- Looks at what a probe has noted. -/
  | seeing {α : Type} (p : ProbeId) (k : σ → Session σ α) : Session σ α
  /-- Runs a body at whose end a scope is dropped, also when it panics. -/
  | scoping {α β : Type} (i : ScopeId) (body : Session σ β) (k : β → Session σ α) : Session σ α
  /-- Gives a scope to a function that only the realm keeps, say as a property of its global. -/
  | entrusting {α : Type} (r : RealmId) (i : ScopeId) (k : Session σ α) : Session σ α
  /-- Lets go of an engine and its stacks, and of all that was made in its realms. -/
  | forgetting {α : Type} (e : EngineId) (k : Session σ α) : Session σ α

namespace Session

variable {σ α : Type}

/-- The body of a probe's functions. -/
def probeBody (p : ProbeId) (note : RealmId → σ → σ) :
    CallContext → Session σ (Except Error Value) :=
  fun _ => .noting p note (.done (.ok .undefined))

/-- A body with a realm active, in a scope that is dropped when the body ends. -/
def within (home : RealmId) (body : Session σ α) : Session σ (Except Error α) :=
  .acting (.enter home) fun
    | .error e => .done (.error e)
    | .ok scope => .scoping scope body fun a => .done (.ok a)

/-- The session and the functions that it makes let go of no engine. -/
def Retains : {α : Type} → Session σ α → Prop
  | _, .done _ | _, .panic _ => True
  | _, .recalling k | _, .seeing _ k => ∀ m, (k m).Retains
  | _, .remembering _ k | _, .noting _ _ k | _, .entrusting _ _ k => k.Retains
  | _, .reading _ k | _, .acting _ k => ∀ a, (k a).Retains
  | _, .defining _ _ _ body k => (∀ context, (body context).Retains) ∧ ∀ o, (k o).Retains
  | _, .calling _ _ k => ∀ r, (k r).Retains
  | _, .crossing _ _ body k => body.Retains ∧ ∀ r, (k r).Retains
  | _, .onStack _ body k | _, .scoping _ body k => body.Retains ∧ ∀ b, (k b).Retains
  | _, .guarding body k => body.Retains ∧ ∀ r, (k r).Retains
  | _, .forgetting _ _ => False

theorem retains_within {home : RealmId} {body : Session σ α} (hbody : body.Retains) :
    (within home body).Retains
  | .error _ => trivial
  | .ok _ => ⟨hbody, fun _ => trivial⟩

/-- The program that a session comes to where nothing is let go of: probes are memory. -/
def plain : {α : Type} → Session σ α → Program σ α
  | _, .done a => .done a
  | _, .panic text => .panic text
  | _, .recalling k => .recalling fun m => (k m).plain
  | _, .remembering m k => .remembering m k.plain
  | _, .reading r k => .reading r fun a => (k a).plain
  | _, .acting a k => .acting a fun b => (k b).plain
  | _, .defining realm name location body k =>
    .defining realm name location (fun context => (body context).plain) fun o => (k o).plain
  | _, .calling callee arguments k => .calling callee arguments fun r => (k r).plain
  | _, .crossing home origin body k => .crossing home origin body.plain fun r => (k r).plain
  | _, .onStack s body k => .onStack s body.plain fun r => (k r).plain
  | _, .guarding body k => .guarding body.plain fun r => (k r).plain
  | _, .noting _ note k => .reading .stack fun stack =>
    .recalling fun m => .remembering (note stack.active.id m) k.plain
  | _, .seeing _ k => .recalling fun m => (k m).plain
  | _, .scoping i body k => .guarding body.plain fun result => .acting (.leave i) fun _ =>
    match result with
    | .ok b => (k b).plain
    | .error text => .panic text
  | _, .entrusting _ _ k | _, .forgetting _ k => k.plain

theorem plain_probeBody (p : ProbeId) (note : RealmId → σ → σ) (context : CallContext) :
    (probeBody p note context).plain = Program.probeBody note context := rfl

end Session

/-- The type of the answers to a question. -/
abbrev Answer : Query → Type
  | .predicate _ => Bool
  | .member _ => Option Value

/-- What foreign values do when they are asked. -/
abbrev Conduct (σ : Type) := ForeignId → (q : Query) → Session σ (Answer q)

/-- What a foreign value was made to answer. -/
def reply (f : Foreign) : (q : Query) → Answer q
  | .predicate p => f.answers.to p
  | .member name => f.members.lookup name

/-- Foreign values that answer from what they were made with. -/
def Conduct.plain {σ : Type} : Conduct σ := fun f q =>
  .reading (.foreign f) fun foreign => .done (reply foreign q)

end Realms.Borrow
