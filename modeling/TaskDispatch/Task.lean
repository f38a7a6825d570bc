/-
Lazy tasks.

A task owns at most one record: a stage, the body that is still to run, and the
cell for the outcome.  Nothing runs until the task is awaited; each poll lends the
body out (`Task.begin?`) and takes it back suspended (`Record.suspend`), or gets
its outcome (`Record.finish`).  Moving a task out of its owner leaves an empty
task, which counts as ready and whose outcome is a broken task.

The body is a parameter: what a poll of it does is not the task's business.
-/
import TaskDispatch.Cell

namespace TaskDispatch

/-- How far a task has come. -/
inductive Stage where
  | created
  | started
  | completed
  deriving DecidableEq

/-- The name of a stage. -/
def Stage.describe : Stage → String
  | created => "Created"
  | started => "Started"
  | completed => "Completed"

/-- What a task owns: its stage, the body still to run, and the cell for the outcome. -/
structure Record (β α : Type) where
  stage : Stage
  body : Option β
  cell : Cell α

/-- A computation that runs when it is awaited and keeps its outcome. -/
structure Task (β α : Type) where
  record : Option (Record β α)

namespace Record

variable {β α : Type}

/-- A poll ended without an outcome: the body comes back. -/
def suspend (r : Record β α) (body : β) : Record β α := { r with body := some body }

/-- The first step after the last poll: the body goes. -/
def discardBody (r : Record β α) : Record β α := { r with body := none }

/-- The second step: the outcome is written. -/
def write (r : Record β α) (outcome : Outcome α) : Except Panic (Record β α) := do
  return { r with cell := ← r.cell.complete outcome }

/-- The third step: the record counts as completed. -/
def advance (r : Record β α) : Record β α := { r with stage := .completed }

/-- A poll ended with an outcome. -/
def finish (r : Record β α) (outcome : Outcome α) : Except Panic (Record β α) := do
  return (← r.discardBody.write outcome).advance

end Record

namespace Task

variable {β α : Type}

/-- A task with a body to run. -/
def new (body : β) : Task β α := ⟨some ⟨.created, some body, .empty⟩⟩

/-- A task that has its value already. -/
def ready (v : α) : Task β α := ⟨some ⟨.completed, none, .value v⟩⟩

/-- A task that has failed already. -/
def failed (e : Error) : Task β α := ⟨some ⟨.completed, none, .error e⟩⟩

/-- A task without a record. -/
def empty : Task β α := ⟨none⟩

def isEmpty (t : Task β α) : Bool := t.record.isNone

/-- Whether awaiting the task would run nothing: an empty task has nothing to run. -/
def isReady (t : Task β α) : Bool :=
  match t.record with
  | none => true
  | some r => r.stage == .completed

/-- Looks at the outcome. -/
def result (t : Task β α) : Except Panic (Outcome α) :=
  match t.record with
  | none => .ok (.error .brokenTask)
  | some r => r.cell.get

/-- Moves the outcome out of the task. -/
def takeOutcome (t : Task β α) : Except Panic (Outcome α) × Task β α :=
  match t.record with
  | none => (.ok (.error .brokenTask), t)
  | some r =>
    let (outcome, cell) := r.cell.take
    (outcome, ⟨some { r with cell }⟩)

/-- Starts a poll.  Without a body there is nothing to run; else the body is lent to the poll, and the
record, which waits for it, counts as started. -/
def begin? (t : Task β α) : Option (β × Record β α) := do
  let r ← t.record
  let body ← r.body
  return (body, { r with stage := .started, body := none })

/-- The body that is dropped with the task. -/
def body? (t : Task β α) : Option β := do (← t.record).body

/-- The form shown to a developer. -/
def describe (t : Task β α) : String :=
  "Task \x7b stage: " ++
    (match t.record with
      | none => "None"
      | some r => "Some(" ++ r.stage.describe ++ ")") ++ " \x7d"

end Task

end TaskDispatch
