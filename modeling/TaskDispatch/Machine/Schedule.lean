/-
Which thread goes next.

A thread runs until it waits; then the first one that can go on does.  When none
can, the clock moves on: a moment past the earliest deadline that a parked timer
thread waits for, so that timers armed together, one right after the other, are due
together as well.
What a scenario shows does not hang on this choice as long as its script does not
race, and the choice makes every run repeatable.
-/
import TaskDispatch.Machine.Step

namespace TaskDispatch.Machine.World

/-- The first thread, from `i` on, that can go on, having done so; `left` is how many there are. -/
def firstStep? (w : World) : (left i : Nat) → Option (Nat × World)
  | 0, _ => none
  | left + 1, i =>
    match w.stepThread? i with
    | some w => some (i, w)
    | none => w.firstStep? left (i + 1)

/-- The deadline that a parked timer thread waits for. -/
def deadlineOf (t : Thread) : Option Nat :=
  match t.focus with
  | .run (.keep _ k) => k.deadline
  | _ => none

/-- The earliest deadline of all. -/
def nextDeadline? (w : World) : Option Nat :=
  w.threads.foldl (fun found t =>
    match found, deadlineOf t with
    | some a, some b => some (min a b)
    | none, d => d
    | d, none => d) none

/-- How late a parked thread is after its deadline: a tenth of a millisecond. -/
def moment : Nat := Timer.nanosPerMilli / 10

/-- One step of the world: of thread `current` if it can go on, else of another, else of the clock.  It
answers which thread goes on. -/
def step? (w : World) (current : Nat) : Option (Nat × World) :=
  match w.stepThread? current with
  | some w => some (current, w)
  | none =>
    match w.firstStep? w.threads.size 0 with
    | some next => some next
    | none =>
      match w.nextDeadline? with
      | some due => if w.now < due then some (current, { w with now := due + moment }) else none
      | none => none

/-- Runs until the first thread has come to something, for at most `fuel` steps. -/
def run : (fuel : Nat) → (current : Nat) → World → World
  | 0, _, w => w
  | fuel + 1, current, w =>
    if (w.resultOf? 0).isSome then w
    else
      match w.step? current with
      | none => w
      | some (next, w) => run fuel next w

end TaskDispatch.Machine.World
