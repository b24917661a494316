import Realms.Run
import Realms.Script.Execute

/-!
Running a script. Each step runs to its end, by a value, an error or a panic, and the next one goes
on with the machine as the step left it.
-/

namespace Realms.Script

/-- A step of a script and the name of the stack it runs on. -/
structure Line where
  stack : String
  step : Step

/-- What a step came to: its answer, the labelled results within it, and the state of its stack, if
there was one when the step began. -/
structure Result where
  answer : Answer
  log : List (String × Answer)
  stack : Option Stack

/-- A label on a line itself logs nothing. -/
def Step.unlabelled : Step → Step
  | .labelled _ step => step.unlabelled
  | step => step

/-- The answer of a step, an error included. -/
def Step.answer (step : Step) : Program Env Answer := do
  match ← (step.exec none).run with
  | .ok finish => pure finish.answer
  | .error e => pure (.error (← Report.ofError e))

/-- More nested calls than fit on any native stack. -/
def fuel : Nat := 4294967296

/-- A machine on which nothing has been made. -/
def start : Machine Env := ⟨.empty, #[], .empty⟩

/-- Runs one line. Without a stack of its name it runs on one that does not exist. -/
def Line.run (line : Line) (m : Machine Env) : Result × Machine Env :=
  let stack := m.memory.callStacks.get? line.stack
  let s := stack.getD ⟨m.store.callStacks.size⟩
  let m := { m with memory := { m.memory with log := #[] } }
  let (outcome, m) := line.step.unlabelled.answer.run .shortcut fuel s m
  let answer := match outcome with
    | .done answer => answer
    | .panicked text => .panicked text
    | .outOfFuel => .panicked "too many nested calls"
  (⟨answer, m.memory.log.toList, stack.bind m.store.stack?⟩, m)

/-- Runs the lines of a script in order. -/
def run (lines : List Line) : List Result :=
  (lines.foldl (fun (results, m) line =>
    let (result, m) := line.run m
    (results.push result, m)) (#[], start)).1.toList

end Realms.Script
