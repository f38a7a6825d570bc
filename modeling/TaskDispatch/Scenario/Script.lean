/-
Scripts: what a scenario does, step by step.

A scenario is a list of steps on named things.  Some steps and some statements
hold further scripts: a task is made from a `Spec`, a scripted task body runs
statements, a statement can perform a step, and a cancellation callback is a list
of steps.  Steps that only touch one named thing are grouped by the kind of thing,
with what they do to it as an act.
-/
import TaskDispatch.Error
import TaskDispatch.Roster
import TaskDispatch.Timer.Deadline

namespace TaskDispatch.Scenario

/-- What a step does to a named task. -/
inductive TaskAct where
  | isReady
  | isEmpty
  | describe
  | result
  | intoResult
  | take (dest : String)
  /-- Polls the task itself, which moves the outcome out. -/
  | poll (waker : String)
  /-- Polls until the outcome is there and leaves it in place. -/
  | pollReady (waker : String)
  | drop

/-- What a step does to a named frame. -/
inductive FrameAct where
  | start
  | wake
  | wakeRef
  | completed
  | notified
  | takeTask (dest : String)
  | drop

/-- What a step does to a named fan-in. -/
inductive FanInAct where
  | poll (waker : String)
  | drop

/-- What a step does to one output of a fan-in. -/
inductive OutputAct where
  | isReady
  | result
  | describe
  | intoTask (dest : String)
  | intoResult

/-- What a step does to a gate. -/
inductive GateAct where
  | wake
  | unlock
  | wakeRef
  | dropWakers
  | close
  | waiting
  | untilWaiting (n : Nat)

/-- What a step does to a named cancellation source. -/
inductive SourceAct where
  | make
  | clone (dest : String)
  | drop
  | request
  | requested
  | describe

/-- What a step does to a named cancellation token. -/
inductive TokenAct where
  | make (source : Option String)
  | clone (dest : String)
  | drop
  | state

/-- What a step does to a named service. -/
inductive ServiceAct where
  | build (threadName : Option String) (capacity : Option Nat)
  | make
  | clone (dest : String)
  | drop
  | describe
  | stop
  | reset
  | isStop
  | workStart
  | workFinish
  | process (mode : EventMode)

/-- What a step does to a named work scope. -/
inductive ScopeAct where
  | make (service : String)
  | clone (dest : String)
  | describe
  | drop

mutual

/-- How to make a task. -/
inductive Spec where
  | ready (v : Value)
  | failed (e : Error)
  /-- A task whose body runs statements. -/
  | body (stmts : List Stmt)
  /-- The same, with the body's outcome as the task's value. -/
  | plain (stmts : List Stmt)
  /-- The task of that name, moved out. -/
  | slot (name : String)
  /-- Layers that each await the next one. -/
  | nest (layers : Nat) (task : Spec)
  /-- Hops onto the service, then awaits the task. -/
  | scheduleOn (service : String) (task : Spec)
  /-- Awaits the task, then hops onto the service. -/
  | resumeOn (service : String) (task : Spec)
  | empty

/-- A statement of a task body. -/
inductive Stmt where
  | log (v : Value)
  | logAcc
  | logThread
  | set (v : Value)
  /-- Ends the body with the value, or with the accumulator. -/
  | ret (v : Option Value)
  | fail (e : Error)
  | panic (p : Panic)
  | guard (id : Value)
  | loop (n : Nat) (stmts : List Stmt)
  | park (gate : String)
  | gate (gate : String)
  | yield (n : Nat)
  | await (task : Spec) (caught : Bool)
  | whenReady (task : Spec) (reads : Nat)
  | all (tasks : List Spec)
  | schedule (service : String)
  | after (service : String) (delay : Timer.Delay) (source : Option String) (caught : Bool)
  | perform (step : Step)
  | skip

/-- A step of a scenario. -/
inductive Step where
  | log (v : Value)
  | panic (text : String)
  | seq (steps : List Step)
  | on (thread : String) (step : Step)
  | makeTask (name : String) (spec : Spec)
  | onTask (name : String) (act : TaskAct)
  | syncWait (spec : Spec)
  | woken (name : String)
  | makeFrame (name : String) (spec : Spec)
  | onFrame (name : String) (act : FrameAct)
  | makeFanIn (name : String) (tasks : List Spec)
  | onFanIn (name : String) (act : FanInAct)
  | onOutput (name : String) (i : Nat) (act : OutputAct)
  | onGate (name : String) (act : GateAct)
  | onSource (name : String) (act : SourceAct)
  | onToken (name : String) (act : TokenAct)
  | register (name token : String) (steps : List Step) (owned : List String) (guards : List Value)
  | unregister (name : String)
  | onService (name : String) (act : ServiceAct)
  | onScope (name : String) (act : ScopeAct)
  | withWorkers (service : String) (n : Nat) (steps : List Step)
  | blockedWorker (service : String) (steps : List Step)
  | background (spec : Spec) (steps : List Step)
  | skip

end

end TaskDispatch.Scenario
