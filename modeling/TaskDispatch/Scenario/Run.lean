/-
Running a scenario.

The steps are done one after another on the main thread.  Each answers what it came
to, which is a panic if one left it, and what was logged meanwhile.  Threads that
outlive a step, the timer threads, stay where they are until the next one.
-/
import TaskDispatch.Machine.Schedule

namespace TaskDispatch.Scenario

open Machine (World)

/-- What a step came to and what it logged. -/
structure Report where
  answer : Value
  log : List Value

/-- More steps than any thread takes in the lifetime of a scenario that ends. -/
def fuel : Nat := Nat.pow 10 15

/-- The world before the first step: the main thread is there. -/
def start : World :=
  let (who, w) := ({} : World).newcomer "main"
  { w with threads := #[⟨who, .give .unit, []⟩] }

/-- Does one step on the main thread. -/
def doStep (w : World) (s : Step) : Report × World :=
  let w := { w with
    log := []
    threads := w.threads.modify 0 fun t => { t with focus := .run (.step s), stack := [] } }
  let w := w.run fuel 0
  let answer := match w.resultOf? 0 with
    | some (.ok (.answer v)) => v
    | some (.error p) => p.toValue
    | _ => .null
  (⟨answer, w.log.reverse⟩, w)

/-- Does the steps in order. -/
def doSteps (w : World) : List Step → List Report
  | [] => []
  | s :: rest =>
    let (report, w) := doStep w s
    report :: doSteps w rest

/-- The reports of a scenario. -/
def run (steps : List Step) : List Report := doSteps start steps

end TaskDispatch.Scenario
