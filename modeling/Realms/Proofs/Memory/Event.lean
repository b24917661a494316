import Realms.Memory.Run

/-! What happens while memory steps run. The guards of a moment are read off the nesting of the
steps that are being taken: a step that holds a cell has its guard from the time when the hold is
granted to the end of its body, however that ends. -/

namespace Realms.Memory

open Work

inductive Event where
  /-- Steps are about to go on, or are over, with those guards around them, innermost first. -/
  | moment (guards : List Guard) (st : State)
  /-- A cell is given a value, the first one or another. -/
  | wrote (c : CellId) (n : Int64)

/-- What happens in some work, which depends on the state that the work finds. -/
abbrev Observed := State → List Event

namespace State

def cell? (st : State) (c : CellId) : Option Cell := st.cells[c.index]?

/-- Who holds a cell; a cell that nobody made is free. -/
def hold (st : State) (c : CellId) : Hold := (st.cell? c).elim .free (·.hold)

def value? (st : State) (c : CellId) : Option Int64 := (st.cell? c).map (·.value)

def modify (st : State) (c : CellId) (f : Cell → Cell) : State :=
  { st with cells := st.cells.modify c.index f }

/-- The state with a cell held in some other way. -/
def held (st : State) (c : CellId) (hold : Hold) : State :=
  st.modify c fun cell => { cell with hold }

def release (st : State) (c : CellId) : State :=
  st.modify c fun cell => { cell with hold := cell.hold.release }

def write (st : State) (c : CellId) (n : Int64) : State :=
  st.modify c fun cell => { cell with value := n }

/-- The hold that a cell would be in with one guard more, unless it is refused. -/
def grant? (st : State) (access : Access) (c : CellId) : Option Hold := do
  access.take (← st.cell? c).hold

end State

/-! ### The events of a step -/

/-- What happens at a cell that is found by a name, or by a guard. -/
def atCell (find : Work CellId) (f : CellId → Observed) : Observed := fun st =>
  match (find st).1 with
  | none => []
  | some c => f c st

/-- What happens while a cell is held, if it can be. -/
def holdingEvents (access : Access) (c : CellId) (body : Observed) : Observed := fun st =>
  match st.grant? access c with
  | none => []
  | some hold => body (st.held c hold)

/-- A cell is given a value that is made from the present one. -/
def writingEvents (guards : List Guard) (c : CellId) (f : Int64 → Int64) : Observed := fun st =>
  match st.value? c with
  | none => []
  | some n => [.moment guards st, .wrote c (f n), .moment guards (st.write c (f n))]

/-- What happens in some work, and in what comes next unless the work panics. -/
def Work.followed {α : Type} (w : Work α) (events next : Observed) : Observed := fun st =>
  events st ++ match w st with
    | (some _, st) => next st
    | (none, _) => []

/-- The beginning and the end of a step, also of one that panics, and what happens between them. -/
def Step.around (step : Step) (guards : List Guard) (inside : Observed) : Observed := fun st =>
  .moment guards st :: inside st ++ [.moment guards (step.exec guards st).2]

mutual

def Step.inside : Step → List Guard → Observed
  | .cell _ value, _ => fun st => [.wrote ⟨st.cells.size⟩ value]
  | .get cell, guards => atCell (named (·.handles) cell) fun c =>
    holdingEvents .read c fun st => [.moment (⟨c, .read⟩ :: guards) st]
  | .set cell n, guards => atCell (named (·.handles) cell) fun c =>
    holdingEvents .write c (writingEvents (⟨c, .write⟩ :: guards) c fun _ => n)
  | .add cell n, guards => atCell (named (·.handles) cell) fun c =>
    holdingEvents .write c (writingEvents (⟨c, .write⟩ :: guards) c (· + n))
  | .withReader cell body, guards => atCell (named (·.handles) cell) fun c =>
    holdingEvents .read c (eventsAll body (⟨c, .read⟩ :: guards))
  | .holdWriter cell body last, guards => atCell (named (·.handles) cell) fun c =>
    holdingEvents .write c <|
      (execAll body (⟨c, .write⟩ :: guards)).followed (eventsAll body (⟨c, .write⟩ :: guards)) <|
        match last with
        | none => fun _ => []
        | some f => writingEvents (⟨c, .write⟩ :: guards) c f
  | .change guard f, guards => atCell (writable guards guard) fun c => writingEvents guards c f
  | .attempt body, guards => eventsAll body guards
  | .string .., _ | .cloneString .., _ | .showString .., _ | .compareStrings .., _
  | .cloneCell .., _ | .sameCell .., _ | .look .., _ | .closure .., _ => fun _ => []

def eventsAll : List Step → List Guard → Observed
  | [], guards => fun st => [.moment guards st]
  | step :: rest, guards =>
    (step.exec guards).followed (step.around guards (step.inside guards)) (eventsAll rest guards)

end

def Step.events (step : Step) (guards : List Guard) : Observed :=
  step.around guards (step.inside guards)

/-- What happens in a run from a state. Each step is on its own, with no guard around it. -/
def eventsFrom : List Step → Observed
  | [] => fun st => [.moment [] st]
  | step :: rest => fun st => step.events [] st ++ eventsFrom rest (step.exec [] st).2

def events (steps : List Step) : List Event := eventsFrom steps .empty

/-- What a cell holds after an event, when it is known what it held before. -/
def Event.value (c : CellId) (last : Option Int64) : Event → Option Int64
  | .moment _ _ => last
  | .wrote d n => if d = c then some n else last

/-- The value last given to a cell. -/
def lastWritten (c : CellId) (es : List Event) : Option Int64 := es.foldl (Event.value c) none

end Realms.Memory
