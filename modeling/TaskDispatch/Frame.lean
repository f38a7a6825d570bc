/-
Frames: how many threads share one task that only one of them may poll.

A frame's word says who may touch the task.  A caller that exchanges `idle` for
`running` owns it and polls.  A caller that finds it `running` leaves `notified`
behind, and the owner, whose exchange back to `idle` then fails, polls once more:
this is why no wake is lost.  After the last poll the word is `completed`, and the
one exchange to `taken` moves the task out.

`Pc` is the place of one caller in this protocol and `Pc.step` its next atomic
step.  The exchange that enters may fail for no reason, which the argument
`spurious` decides.  Polling the task and notifying its awaiter belong to whoever
runs the frame; `Pc.afterPoll` and `Pc.done` say where the caller goes on.
-/
namespace TaskDispatch.Frame

/-- The word that the callers of a frame share. -/
inductive Word where
  /-- Nobody polls; a resumption has to. -/
  | idle
  /-- One caller owns the task and polls it. -/
  | running
  /-- The owner has been told to poll once more. -/
  | notified
  /-- The task has its outcome. -/
  | completed
  /-- The task has moved out. -/
  | taken
  deriving DecidableEq, Inhabited

namespace Word

/-- Whether the task has its outcome. -/
def isCompleted : Word → Bool
  | completed | taken => true
  | _ => false

/-- The one exchange that moves the task out. -/
def take? : Word → Option Word
  | completed => some taken
  | _ => none

/-- What a resumption wants to put in place of the word it saw, if anything. -/
def entry? : Word → Option Word
  | idle => some running
  | running => some notified
  | _ => none

end Word

/-- The place of one caller of `resume`. -/
inductive Pc where
  /-- About to read the word. -/
  | load
  /-- About to exchange the word it saw. -/
  | exchange (seen : Word)
  /-- Owns the task and polls it. -/
  | polling
  /-- The poll ended without an outcome: about to exchange `running` for `idle`. -/
  | retire
  /-- A wake came during the poll: about to store `running` again. -/
  | renew
  /-- The poll ended with an outcome: about to store `completed`. -/
  | publish
  /-- About to notify the awaiter. -/
  | notifying
  | done
  /-- The word was neither `running` nor `notified` when a poll ended. -/
  | broken
  deriving DecidableEq

namespace Pc

/-- Where a caller goes that has seen a word. -/
def seeing (w : Word) : Pc :=
  if w.entry?.isSome then exchange w else done

/-- The next atomic step on the word.  At `polling`, `notifying`, `done` and `broken` there is none. -/
def step (spurious : Bool) (pc : Pc) (w : Word) : Word × Pc :=
  match pc with
  | load => (w, seeing w)
  | exchange seen =>
    if w = seen && !spurious then
      match seen.entry? with
      | some .running => (.running, polling)
      | some next => (next, done)
      | none => (w, done)
    else (w, seeing w)
  | retire =>
    match w with
    | .running => (.idle, done)
    | .notified => (w, renew)
    | _ => (w, broken)
  | renew => (.running, polling)
  | publish => (.completed, notifying)
  | polling => (w, polling)
  | notifying => (w, notifying)
  | done => (w, done)
  | broken => (w, broken)

/-- Where the owner goes after a poll. -/
def afterPoll (ready : Bool) : Pc := if ready then publish else retire

end Pc

end TaskDispatch.Frame
