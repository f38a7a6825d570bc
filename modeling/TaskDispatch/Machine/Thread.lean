/-
Threads: what they are about to do, and what waits for it.

A thread has a focus and a stack.  The focus is a job it is about to do, a result
it is about to hand down, or a panic it is about to let fall.  The stack holds, for
every job under way, what becomes of its result (`Cont`).  Every job that touches
something shared is one atomic step, so that threads can take turns between any
two of them.

Things that a thread lets go of are losses.  Letting go of the last holder of an
object is letting go of what the object holds, in turn.
-/
import TaskDispatch.Machine.Object
import TaskDispatch.Timer.Caller

namespace TaskDispatch.Machine

open Scenario (Step)

/-- Who a thread is: the name it shows, and a number that is its own. -/
structure Who where
  label : String
  token : Nat

/-- Something a thread lets go of. -/
inductive Loss where
  /-- A guard, which logs that it is gone. -/
  | guard (id : Value)
  | task (t : BodyTask)
  | body (b : Body)
  | awaiting (a : Awaiting Body)
  | waker (w : Waker)
  | frame (id : Nat)
  | hop (id : Nat)
  | wait (id : Nat)
  | countdown (id : Nat)
  | fanIn (id : Nat)
  | service (id : Nat)
  | port (id : Nat)
  | source (id : Nat)
  | registration (r : Registration)
  | callback (c : Callback)
  /-- A unit of work on a service, and the handle that came with it. -/
  | scope (service : Nat)
  /-- A timer thread, which is shut down and joined. -/
  | timer (id : Nat)

/-- Something a thread is about to do. -/
inductive Job where
  | step (s : Step)
  | callbackSteps (steps : List Step) (owned : List Registration) (guards : List Value)
  -- tasks and bodies
  | pollTask (t : BodyTask) (w : Waker)
  | pollBody (b : Body) (w : Waker)
  | script (s : Script Body) (w : Waker)
  | await (a : Awaiting Body) (s : Script Body) (w : Waker)
  | use (o : Outcome Value) (caught : Bool) (s : Script Body) (w : Waker)
  | finish (o : Outcome Value) (s : Script Body)
  | syncWait (t : BodyTask)
  -- frames and fan-ins
  | frame (id : Nat) (pc : Frame.Pc)
  | notify (id : Nat) (n : Notifier)
  | countdown (id : Nat) (p : Countdown.Party Waker)
  | pollFanIn (id : Nat) (w : Waker)
  | startFrames (frames : List Nat) (fanIn : Nat) (w : Waker)
  | collect (fanIn : Nat)
  -- wakers
  | wake (w : Waker)
  | wakeRef (w : Waker)
  | wakeAll (ws : List Waker)
  | wakeEach (ws : List Waker)
  -- cancellation
  | request (source : Nat) (pc : Source.Request Callback)
  | callback (c : Callback)
  -- services
  | stop (service : Nat) (pc : Stop)
  | finishWork (service : Nat)
  | events (service : Nat) (mode : EventMode) (pc : EventLoop Waker)
  -- timers
  | call (timer : Nat) (c : Timer.Caller Nat)
  | arrive (wait : Nat)
  | postWait (wait : Nat)
  | keep (timer : Nat) (k : Timer.Keeper Nat)
  -- letting go and waiting
  | discard (losses : List Loss)
  | awaitLatch (id : Nat)
  | awaitGate (name : String) (n : Nat)
  | awaitActive (service : Nat) (n : Nat)
  | join (threads : List Nat)

/-- What a finished job hands down. -/
inductive Ret where
  | unit
  | answer (v : Value)
  | flag (b : Bool)
  | count (n : Nat)
  /-- A poll of a task, and the task back. -/
  | polled (ready : Bool) (t : BodyTask)
  | suspended (b : Body)
  | ended (o : Outcome Value)
  /-- A poll of a fan-in: its outputs, if it is ready. -/
  | outputs (ts : Option (List BodyTask))
  | outcome (o : Outcome Value)

/-- What a thread is about to do, to hand down or to let fall. -/
inductive Focus where
  | run (job : Job)
  | give (r : Ret)
  | fail (p : Panic)

/-- What becomes of a job's result. -/
inductive Cont where
  -- for any job
  /-- Goes on so, whatever the result. -/
  | resume (f : Focus)
  /-- Does these jobs next, whatever the result. -/
  | jobs (js : List Job)
  /-- Lets go of these whether the job returned or panicked, and passes its result on. -/
  | losing (ls : List Loss)
  | discarding (ls : List Loss)
  /-- A helper thread has done its step: the caller is itself again. -/
  | restore (who : Who)
  -- steps
  | answering (v : Value)
  | counted
  | outcomeAnswered
  | steps (rest : List Step) (done : List Value)
  | caughtSteps (rest : List Step) (done : List Value)
  | calledBack (rest : List Step) (owned : List Registration) (guards : List Value)
  | polledTask (name : String) (whenReady : Bool)
  | polledFanIn (name : String) (id : Nat)
  | stopWorkers (service : Nat) (threads : List Nat)
  | joinBlocked (thread : Nat)
  | joinBackground (thread : Nat)
  | blockedJoined (thread : Nat) (answers : Value)
  | backgroundJoined (thread : Nat) (answers : Value)
  | registered (name : String) (r : Registration)
  -- tasks and bodies
  | record (r : Record Body Value)
  | layer
  | transfer (service : Nat) (hopped : Bool) (w : Waker)
  | awaitTask (s : Script Body) (caught : Bool) (w : Waker)
  | awaitReady (s : Script Body) (reads : Nat) (w : Waker)
  | awaitFanIn (id : Nat) (s : Script Body) (w : Waker)
  | yielded (s : Script Body) (left : Nat)
  | did (s : Script Body) (w : Waker)
  | waited (frame latch : Nat)
  | woken (frame : Nat)
  -- frames and fan-ins
  | framePolled (id : Nat)
  | startRest (frames : List Nat) (fanIn : Nat) (w : Waker)
  | enlisted (fanIn : Nat)
  -- wakers
  | wakeRest (ws : List Waker)
  | wakeEachRest (ws : List Waker)
  -- cancellation, services, timers
  | request (source : Nat) (pc : Source.Request Callback)
  | events (service : Nat) (mode : EventMode) (pc : EventLoop Waker)
  | keep (timer : Nat) (k : Timer.Keeper Nat) (served : Nat)

/-- A thread: who it is, its focus, and its stack. -/
structure Thread where
  who : Who
  focus : Focus
  stack : List Cont := []

namespace Thread

/-- What a thread has come to, when nothing waits for it any more. -/
def result? (t : Thread) : Option (Except Panic Ret) :=
  match t.stack, t.focus with
  | [], .give r => some (.ok r)
  | [], .fail p => some (.error p)
  | _, _ => none

end Thread

end TaskDispatch.Machine
