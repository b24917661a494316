import Realms.Memory.Step
import Realms.Names
import Realms.Value

/-!
Running memory steps. A refused hold is a panic: it ends every step up to the next attempt, each
hold taken on the way is given back, and what was written before stays written.
-/

namespace Realms.Memory

structure State where
  strings : Names SharedString
  handles : Names CellId
  cells : Array Cell
  allocations : Nat

def State.empty : State := ⟨.empty, .empty, #[], 0⟩

/-- A step of work, which gives nothing where it panics; the state is kept all the same. -/
abbrev Work (α : Type) := State → Option α × State

namespace Work

variable {α β : Type}

def done (a : α) : Work α := fun st => (some a, st)

def panic : Work α := fun st => (none, st)

def andThen (w : Work α) (f : α → Work β) : Work β := fun st =>
  match w st with
  | (some a, st) => f a st
  | (none, st) => (none, st)

instance : Monad Work where
  pure := done
  bind := andThen

def update (f : State → State) : Work Unit := fun st => (some (), f st)

/-- The thing of a name; a name that nothing has is a panic. -/
def named (names : State → Names α) (name : String) : Work α := fun st =>
  ((names st).get? name, st)

/-- The cell of a guard. -/
def guarded (guards : List Guard) (guard : Nat) : Work CellId := fun st =>
  (guards[guard]?.map (·.cell), st)

/-- The cell of a guard, if that is one for writing. -/
def writable (guards : List Guard) (guard : Nat) : Work CellId := fun st =>
  ((guards[guard]?.filter (·.access = .write)).map (·.cell), st)

def cell (c : CellId) : Work Cell := fun st => (st.cells[c.index]?, st)

def modifyCell (c : CellId) (f : Cell → Cell) : Work Unit :=
  update fun st => { st with cells := st.cells.modify c.index f }

/-- Takes a hold on a cell for the length of a body, however the body ends. -/
def holding (access : Access) (c : CellId) (body : Work α) : Work α := do
  match access.take (← cell c).hold with
  | none => panic
  | some hold =>
    modifyCell c fun cell => { cell with hold }
    fun st =>
      let (result, st) := body st
      (result, (modifyCell c (fun cell => { cell with hold := cell.hold.release }) st).2)

def value (c : CellId) : Work Int64 := do pure (← cell c).value

def setValue (c : CellId) (n : Int64) : Work Unit :=
  modifyCell c fun cell => { cell with value := n }

/-- Makes a value into another; the answer is the new one. -/
def updateValue (c : CellId) (f : Int64 → Int64) : Work Int64 := do
  let n := f (← value c)
  setValue c n
  pure n

end Work

open Work

mutual

/-- Takes a step that has some guards around it, the innermost first. -/
def Step.exec : Step → List Guard → Work Answer
  | .string keep text, _ => do
    update fun st =>
      { st with
        strings := st.strings.set keep ⟨text, st.allocations⟩
        allocations := st.allocations + 1 }
    pure .nothing
  | .cloneString string keep, _ => do
    let s ← named (·.strings) string
    update fun st => { st with strings := st.strings.set keep s }
    pure .nothing
  | .showString string, _ => do pure (.string (← named (·.strings) string).text)
  | .compareStrings a b, _ => do
    let a ← named (·.strings) a
    let b ← named (·.strings) b
    pure (.comparison ⟨a.text == b.text, a.allocation == b.allocation⟩)
  | .cell keep value, _ => do
    update fun st =>
      { st with
        handles := st.handles.set keep ⟨st.cells.size⟩
        cells := st.cells.push ⟨value, .free⟩ }
    pure .nothing
  | .cloneCell cell keep, _ => do
    let c ← named (·.handles) cell
    update fun st => { st with handles := st.handles.set keep c }
    pure .nothing
  | .get cell, _ => do
    let c ← named (·.handles) cell
    holding .read c do pure (.number (← value c))
  | .set cell n, _ => do
    let c ← named (·.handles) cell
    holding .write c (setValue c n)
    pure .nothing
  | .add cell n, _ => do
    let c ← named (·.handles) cell
    holding .write c do pure (.number (← updateValue c (· + n)))
  | .sameCell a b, _ => do
    let a ← named (·.handles) a
    let b ← named (·.handles) b
    pure (.flag (a == b))
  | .withReader cell body, guards => do
    let c ← named (·.handles) cell
    holding .read c do
      let answers ← execAll body (⟨c, .read⟩ :: guards)
      pure (.held (← value c) answers)
  | .holdWriter cell body last, guards => do
    let c ← named (·.handles) cell
    holding .write c do
      let answers ← execAll body (⟨c, .write⟩ :: guards)
      match last with
      | none => pure (.held (← value c) answers)
      | some f => pure (.held (← updateValue c f) answers)
  | .look guard, guards => do pure (.number (← value (← guarded guards guard)))
  | .change guard f, guards => do pure (.number (← updateValue (← writable guards guard) f))
  | .attempt body, guards => fun st =>
    match execAll body guards st with
    | (some answers, st) => (some (.attempted answers), st)
    | (none, st) => (some .panicked, st)
  | .closure own other, _ => pure (.sum (other + own))

def execAll : List Step → List Guard → Work (List Answer)
  | [], _ => pure []
  | step :: rest, guards => do
    let answer ← step.exec guards
    pure (answer :: (← execAll rest guards))

end

/-- Runs steps one after another, each on its own: a panic ends only the step it is in. -/
def run (steps : List Step) : List Answer :=
  (steps.foldl (fun (answers, st) step =>
    let (answer, st) := step.exec [] st
    (answers.push (answer.getD .panicked), st)) (#[], State.empty)).1.toList

end Realms.Memory
