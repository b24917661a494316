import Realms.Memory.Cell
import Realms.Proofs.Borrow.Session
import Realms.Proofs.Event

/-! Work on a machine whose cells are borrowed for it. A guard lasts to the end of a body, however
that ends. A borrow that conflicts with another ends everything, and where it is met on the way out
of a panic there is nothing left but to abort.

The machine also knows which realms their engines have let go of. Such a realm lives on as long as a
scope of its stack is open that keeps it, and the scopes that only its functions own end with it. -/

namespace Realms.Borrow

open Memory (Access Hold)

/-- The cells of the runtime. -/
inductive Slot where
  /-- The realms of an engine. -/
  | realms (e : EngineId)
  /-- The properties of an object. -/
  | properties (o : ObjectId)
  /-- The active realm of a stack. -/
  | active (s : StackId)
  /-- The record of the questions that a foreign value has been asked. -/
  | questions (f : ForeignId)
  /-- The notes of a probe. -/
  | notes (p : ProbeId)
  deriving DecidableEq

/-- How each cell is borrowed. -/
abbrev Holds := Slot → Hold

namespace Holds

def free : Holds := fun _ => .free

def set (holds : Holds) (slot : Slot) (hold : Hold) : Holds := fun other =>
  if other = slot then hold else holds other

end Holds

/-- Code that is not the runtime's own. -/
inductive UserCode where
  | body (c : CodeId)
  | question (f : ForeignId) (q : Query)
  | crossing (home : RealmId)

/-- User code that begins, and how the cells are borrowed then. -/
structure Start where
  code : UserCode
  holds : Holds

/-- A machine for sessions, with the borrows of the moment and what has started so far. -/
structure World (σ : Type) where
  store : Store
  code : Array (CallContext → Session σ (Except Error Value))
  memory : σ
  holds : Holds
  starts : List Start
  /-- The stacks on which something is run, innermost first. -/
  running : List StackId
  /-- The realms that are in no engine's list any more. -/
  lost : List RealmId
  /-- The scopes that are owned by functions which only a realm keeps. -/
  entrusted : List (RealmId × ScopeId)

namespace World

variable {σ : Type}

/-- A machine at the beginning of a session. -/
def opening (store : Store) (code : Array (CallContext → Session σ (Except Error Value)))
    (memory : σ) : World σ :=
  ⟨store, code, memory, .free, [], [], [], []⟩

/-- A running stack belongs to the engine. -/
def Uses (w : World σ) (e : EngineId) : Prop :=
  ∃ s ∈ w.running, (w.store.stack? s).map (·.engine) = some e

/-- A realm is in its engine's list, or is active on the stack of an open scope, or is to be put
back by one. -/
def Keeps (w : World σ) (r : RealmId) : Prop :=
  r ∈ w.lost → ∃ scope ∈ w.store.underway ++ w.store.scopes.toList, scope.finished = false ∧
    (scope.previous.map (·.id) = some r ∨
      (w.store.stack? scope.stack).map (·.active.id) = some r)

instance (w : World σ) (e : EngineId) : Decidable (w.Uses e) :=
  inferInstanceAs (Decidable (∃ s ∈ w.running, _))

instance (w : World σ) (r : RealmId) : Decidable (w.Keeps r) :=
  inferInstanceAs (Decidable (_ → ∃ scope ∈ _, _))

/-- The scopes that end with a realm. -/
def custody (w : World σ) (r : RealmId) : List ScopeId :=
  (w.entrusted.filter (·.1 = r)).map (·.2)

/-- The engine of some realm has let go of it, and a function there owns a scope. -/
def Burdened (w : World σ) : Prop := ∃ entrusted ∈ w.entrusted, entrusted.1 ∈ w.lost

/-- No realm is lost, nor does any function let go of an engine. -/
def Retains (w : World σ) : Prop :=
  w.lost = [] ∧ ∀ body ∈ w.code, ∀ context, (body context).Retains

theorem keeps_of_lost {w : World σ} (hw : w.lost = []) (r : RealmId) : w.Keeps r :=
  fun hr => absurd hr (hw ▸ List.not_mem_nil)

theorem lost_of_not_keeps {w : World σ} {r : RealmId} (hr : ¬w.Keeps r) : r ∈ w.lost :=
  (Classical.not_imp.1 hr).1

theorem custody_of_lost {w : World σ} {r : RealmId} (hw : ¬w.Burdened) (hr : r ∈ w.lost) :
    w.custody r = [] := by
  rw [custody, List.map_eq_nil_iff, List.filter_eq_nil_iff]
  intro entrusted hmem hof
  exact hw ⟨entrusted, hmem, of_decide_eq_true hof ▸ hr⟩

theorem Retains.push {w : World σ} (hw : w.Retains)
    {body : CallContext → Session σ (Except Error Value)}
    (hbody : ∀ context, (body context).Retains) (store : Store) :
    Retains { w with store, code := w.code.push body } := by
  refine ⟨hw.1, fun code hcode => ?_⟩
  obtain hcode | rfl := Array.mem_push.1 hcode
  · exact hw.2 code hcode
  · exact hbody

theorem Retains.not_burdened {w : World σ} (hw : w.Retains) : ¬w.Burdened :=
  fun ⟨_, _, hlost⟩ => absurd hlost (hw.1 ▸ List.not_mem_nil)

end World

inductive Ending (α : Type) where
  | ended (outcome : Outcome α)
  /-- A borrow was refused. -/
  | conflict (slot : Slot)
  /-- Something else went wrong on the way out of a panic. -/
  | aborted
  deriving DecidableEq

variable {σ α β : Type}

namespace Ending

def map (f : α → β) : Ending α → Ending β
  | .ended outcome => .ended (outcome.map f)
  | .conflict slot => .conflict slot
  | .aborted => .aborted

/-- An ending as on a machine that knows no borrows. -/
def Ordinary (e : Ending α) : Prop := ∃ outcome, e = .ended outcome

end Ending

abbrev Held (σ α : Type) := World σ → Ending α × World σ

namespace Held

def done (a : α) : Held σ α := fun w => (.ended (.done a), w)

def panic (text : String) : Held σ α := fun w => (.ended (.panicked text), w)

def outOfFuel : Held σ α := fun w => (.ended .outOfFuel, w)

/-- Goes on with a result, and with nothing else. -/
def andThen (h : Held σ α) (k : α → Held σ β) : Held σ β := fun w =>
  match h w with
  | (.ended (.done a), w) => k a w
  | (.ended (.panicked text), w) => (.ended (.panicked text), w)
  | (.ended .outOfFuel, w) => (.ended .outOfFuel, w)
  | (.conflict slot, w) => (.conflict slot, w)
  | (.aborted, w) => (.aborted, w)

instance : Monad (Held σ) where
  pure := done
  bind := andThen

/-- Finds something in the store. -/
def look (f : Store → Option α) : Held σ α := fun w =>
  match f w.store with
  | none => (.ended (.panicked unknownHandle), w)
  | some a => (.ended (.done a), w)

/-- Changes the store. -/
def change (f : Store → Option (α × Store)) : Held σ α := fun w =>
  match f w.store with
  | none => (.ended (.panicked unknownHandle), w)
  | some (a, store) => (.ended (.done a), { w with store })

def remembered : Held σ σ := fun w => (.ended (.done w.memory), w)

def remember (memory : σ) : Held σ Unit := fun w => (.ended (.done ()), { w with memory })

/-- Runs a body with a cell borrowed. -/
def holding (access : Access) (slot : Slot) (body : Held σ α) : Held σ α := fun w =>
  match access.take (w.holds slot) with
  | none => (.conflict slot, w)
  | some hold =>
    let (ending, w) := body { w with holds := w.holds.set slot hold }
    (ending, { w with holds := w.holds.set slot (w.holds slot).release })

/-- Notes that user code begins. -/
def starting (code : UserCode) : Held σ Unit := fun w =>
  (.ended (.done ()), { w with starts := ⟨code, w.holds⟩ :: w.starts })

/-- Runs a body, and at its end what is to be done when something is dropped. -/
def dropping (drop : Held σ Unit) (body : Held σ α) : Held σ α := fun w =>
  let (ending, w) := body w
  let (dropped, w) := drop w
  match ending, dropped with
  | .ended (.done a), dropped => (dropped.map fun _ => a, w)
  | ending, .ended (.done _) => (ending, w)
  | _, _ => (.aborted, w)

/-- Turns a panic into an answer; a refused borrow is not caught. -/
def guarding (body : Held σ α) : Held σ (Except String α) := fun w =>
  match body w with
  | (.ended (.done a), w) => (.ended (.done (.ok a)), w)
  | (.ended (.panicked text), w) => (.ended (.done (.error text)), w)
  | (.ended .outOfFuel, w) => (.ended .outOfFuel, w)
  | (.conflict slot, w) => (.conflict slot, w)
  | (.aborted, w) => (.aborted, w)

/-- Work on the way out of a panic. -/
def unwinding (h : Held σ α) : Held σ α := fun w =>
  match h w with
  | (.conflict _, w) => (.aborted, w)
  | (ending, w) => (ending, w)

/-- Runs a body on a stack. -/
def onto (s : StackId) (body : Held σ α) : Held σ α := fun w =>
  let (ending, last) := body { w with running := s :: w.running }
  (ending, { last with running := w.running })

end Held

end Realms.Borrow
