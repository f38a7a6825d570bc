/-
The cell that holds a task's outcome.

It is written once.  A value can be looked at until it is moved out, once; an
error can be read any number of times, and moving it out leaves it in place.
Reading too early and reading a value that is gone are panics, as is a second
write.
-/
import TaskDispatch.Error

namespace TaskDispatch

/-- Where an outcome waits for its readers. -/
inductive Cell (α : Type) where
  | empty
  | value (v : α)
  | error (e : Error)
  /-- The value has moved out. -/
  | consumed

namespace Cell

variable {α : Type}

def isEmpty : Cell α → Bool
  | empty => true
  | _ => false

/-- The cell that holds an outcome. -/
def ofOutcome : Outcome α → Cell α
  | .ok v => value v
  | .error e => error e

/-- Writes the outcome; only an empty cell accepts it. -/
def complete (c : Cell α) (outcome : Outcome α) : Except Panic (Cell α) :=
  match c with
  | empty => .ok (ofOutcome outcome)
  | _ => .error .writtenTwice

/-- Looks at the outcome and leaves it in place. -/
def get : Cell α → Except Panic (Outcome α)
  | value v => .ok (.ok v)
  | error e => .ok (.error e)
  | empty => .error .readTooEarly
  | consumed => .error .alreadyTaken

/-- Moves the outcome out.  The cell is marked consumed before its content is known, so that taking
too early also spoils it; only an error is put back. -/
def take : Cell α → Except Panic (Outcome α) × Cell α
  | value v => (.ok (.ok v), consumed)
  | error e => (.ok (.error e), error e)
  | empty => (.error .readTooEarly, consumed)
  | consumed => (.error .alreadyTaken, consumed)

/-! ### Reading what was written -/

@[simp] theorem complete_empty (o : Outcome α) : (empty : Cell α).complete o = .ok (ofOutcome o) := rfl

@[simp] theorem get_ofOutcome (o : Outcome α) : (ofOutcome o).get = .ok o := by
  cases o <;> rfl

@[simp] theorem take_ofOutcome (o : Outcome α) : (ofOutcome o).take.1 = .ok o := by
  cases o <;> rfl

/-- Taking an error leaves it in place. -/
@[simp] theorem take_error (e : Error) : (error e : Cell α).take = (.ok (.error e), error e) := rfl

/-- The name of the cell's state. -/
def describe : Cell α → String
  | empty => "Empty"
  | value _ => "Value"
  | error _ => "Error"
  | consumed => "Consumed"

end Cell

end TaskDispatch
