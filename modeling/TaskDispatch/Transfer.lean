/-
Transfers: tasks that bring whoever awaits them onto a service.

A transfer wraps a task.  It hops first and awaits the task where the hop has come down, or
it awaits the task first and hops with what has come of it.  It goes on from a hop only in
a poll on the thread that ran the latest one, and posts another if it finds the latest one
elsewhere (`HopMove`).  What comes of the task, value or error, is what comes of the
transfer.

A hop is known by its number; how a poll sees it, and what a poll of the task does, is not
the transfer's business.
-/
import TaskDispatch.Hop
import TaskDispatch.Task

namespace TaskDispatch

/-- What a hop brings over: a task that is still to be awaited, or what has come of one. -/
inductive Cargo (β α : Type) where
  | task (t : Task β α)
  | outcome (o : Outcome α)

/-- The body of a task that hops onto a service and awaits another task. -/
inductive Transfer (β α : Type) where
  /-- Hops; its latest hop is this, if it has posted one. -/
  | hopping (hop : Option Nat) (cargo : Cargo β α)
  /-- Awaits the task, after its hop or before. -/
  | awaiting (hopped : Bool) (t : Task β α)

/-- What a poll of a transfer does next. -/
inductive Course (β α : Type) where
  /-- Polls the task. -/
  | await (hopped : Bool) (t : Task β α)
  /-- Goes on with the poll as this transfer. -/
  | go (b : Transfer β α)
  | suspend (b : Transfer β α)
  /-- Posts a hop and suspends, hopping with this. -/
  | post (cargo : Cargo β α)
  | finish (o : Outcome α)

variable {β α : Type}

/-- The hop has come down where the poll is. -/
def Cargo.unload : Cargo β α → Course β α
  | task t => .go (.awaiting true t)
  | outcome o => .finish o

namespace Transfer

/-- Hops before it awaits the task. -/
def scheduleOn (t : Task β α) : Transfer β α := hopping none (.task t)

/-- Awaits the task before it hops. -/
def resumeOn (t : Task β α) : Transfer β α := awaiting false t

/-- The latest hop of a transfer that hops, if it has posted one. -/
def hop? : Transfer β α → Option Nat
  | hopping hop _ => hop
  | awaiting .. => none

/-- What a poll does that makes this of the latest hop. -/
def course (see : Option Nat → HopMove) : Transfer β α → Course β α
  | hopping hop cargo =>
    match see hop with
    | .arrive => cargo.unload
    | .wait => .suspend (hopping hop cargo)
    | .post => .post cargo
  | awaiting hopped t => .await hopped t

/-- What a poll does that has got the outcome of the task. -/
def onward (hopped : Bool) (o : Outcome α) : Course β α :=
  if hopped then .finish o else .go (hopping none (.outcome o))

end Transfer

end TaskDispatch
