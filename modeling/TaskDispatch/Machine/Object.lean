/-
The objects of a running scenario.

Tasks, bodies and what a body awaits are values with one owner, so they contain
each other.  Frames, hops, timed waits, countdowns, services, ports and sources are
shared; they are known by their numbers in the pools of the world.
-/
import TaskDispatch.Cancellation
import TaskDispatch.Countdown
import TaskDispatch.Frame
import TaskDispatch.Hop
import TaskDispatch.Latch
import TaskDispatch.Roster
import TaskDispatch.Scenario.Script
import TaskDispatch.Task
import TaskDispatch.Timer.Turn
import TaskDispatch.Transfer

namespace TaskDispatch.Machine

open Scenario (Step Stmt)

/-- Who is told to poll again. -/
inductive Waker where
  /-- Counts its wakes under a name. -/
  | counting (name : String)
  | frame (id : Nat)
  | hop (id : Nat)
  deriving DecidableEq

/-- A callback's place on a source, or nothing where there is none to take back. -/
structure Registration where
  place : Option (Nat × Nat)
  deriving DecidableEq

namespace Registration

/-- The registration of a callback that cannot run, or has run. -/
def inert : Registration := ⟨none⟩

/-- The form shown to a developer. -/
def describe (r : Registration) : String :=
  s!"CancellationRegistration \x7b active: {r.place.isSome} \x7d"

end Registration

/-- What runs when cancellation is requested. -/
inductive Callback where
  /-- Steps, the registrations it owns, and its guards, the latest first. -/
  | script (steps : List Step) (owned : List Registration) (guards : List Value)
  /-- Has a timer thread sweep its queue. -/
  | sweep (timer : Nat)

/-- A wait for a delay on a service, as the awaiting task holds it. -/
structure DelayedHop where
  service : Nat
  delay : Timer.Delay
  source : Option Nat
  hop : Option Nat := none
  registration : Option Registration := none

/-- What a body awaits; `β` is the type of bodies. -/
inductive Awaiting (β : Type) where
  | task (t : Task β Value) (caught : Bool)
  | readiness (t : Task β Value) (reads : Nat)
  | fanIn (id : Nat)
  | parked
  | gate (name : String)
  | yields (left : Nat)
  | schedule (service : Nat) (hop : Option Nat)
  | timed (wait : DelayedHop) (caught : Bool)

/-- A body that runs statements: those left, the accumulator, its guards, the latest first, whether its
outcome is the task's value, and what it awaits. -/
structure Script (β : Type) where
  todo : List Stmt
  acc : Value := .null
  guards : List Value := []
  plain : Bool := false
  awaiting : Option (Awaiting β) := none

/-- A task body. -/
inductive Body where
  | script (s : Script Body)
  /-- Only awaits another task. -/
  | layer (t : Task Body Value)
  /-- Hops onto a service and awaits another task. -/
  | transfer (service : Nat) (b : Transfer Body Value)

/-- A task of a scenario. -/
abbrev BodyTask := Task Body Value

/-- What a frame tells when its task has an outcome. -/
inductive Notifier where
  | counting
  | latch (id : Nat)
  | countdown (id : Nat)

/-- A frame: its word, its task, whom it notifies, and how often it has. -/
structure FrameObject where
  word : Frame.Word := .idle
  task : BodyTask
  notifier : Notifier
  notified : Nat := 0

/-- A fan-in: the tasks not started yet, the frames that run the others, and their countdown. -/
structure FanIn where
  pending : List BodyTask
  frames : List Nat := []
  countdown : Nat
  started : Bool := false

/-- What the timer thread and a timed wait share. -/
structure TimedWait where
  source : Option Nat
  rendezvous : Rendezvous := {}
  port : Nat
  hop : Nat

/-- How a service is set up. -/
structure Setup where
  timerThreadName : String := "vinculum-timer"
  timerCapacity : Nat := 64

/-- The form shown to a developer. -/
def Setup.describe (s : Setup) : String :=
  s!"ServiceBuilder \x7b timer_thread_name: {Text.quoted s.timerThreadName}, " ++
    s!"timer_capacity: {s.timerCapacity} \x7d"

/-- A dispatch service: its roster, its count of outstanding work, its port, and its timer thread once
that has been needed. -/
structure Service where
  setup : Setup := {}
  roster : Roster := {}
  work : Workload := {}
  port : Nat
  timer : Option Nat := none

/-- The form shown to a developer. -/
def Service.describe (s : Service) : String :=
  s!"DispatchService \x7b stop_requested: {s.roster.stopRequested}, active_threads: {s.roster.active}, " ++
    s!"work_count: {s.work.count}, timer_started: {s.timer.isSome} \x7d"

/-- A timer thread: what it shares with others, and the thread that runs its loop. -/
structure TimerThread where
  shared : Timer.Shared Nat := {}
  thread : Nat

/-- A gate of a scenario: bodies wait at it with their wakers, the first to come first. -/
structure Gate where
  isOpen : Bool := false
  wakers : List Waker := []

end TaskDispatch.Machine
