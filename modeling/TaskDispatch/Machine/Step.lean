/-
One step of one thread.

A thread does its job, or hands its result to the continuation on top of its
stack, or lets a panic fall through it.  Most continuations let a panic pass once
they have let go of what they hold.  Three stop it: a task's record takes it as its
error, and the steps that run beside other threads answer it.
-/
import TaskDispatch.Machine.Perform

namespace TaskDispatch.Machine.World

/-- Whether a thread that waits may go on. -/
def ready (w : World) : Job → Bool
  | .awaitLatch id => (w.latches.get? id).any fun l => Latch.Waiter.looking.look l == .returned
  | .awaitGate name n => n ≤ (w.gateOf name).wakers.length
  | .awaitActive id n => (w.services.get? id).any (n ≤ ·.roster.active)
  | .join threads => threads.all fun t => (w.resultOf? t).isSome
  | _ => true

/-- Does a job; none while it waits. -/
def work? (w : World) (who : Who) (job : Job) : Option Move :=
  match job with
  | .step s => some (w.perform who s)
  | .callbackSteps [] owned guards =>
    some (w.losing (Callback.script [] owned guards).losses (.give .unit))
  | .callbackSteps (s :: rest) owned guards => some (w.runs (.step s) [.calledBack rest owned guards])
  | .pollTask t waker => some (w.pollTask t waker)
  | .pollBody b waker => some (w.pollBody who waker b)
  | .script s waker => some (w.script who s waker)
  | .await a s waker => some (w.await who a s waker)
  | .use o caught s waker => some (w.use o caught s waker)
  | .finish o s => some (w.finish o s)
  | .syncWait t => some (w.syncWait t)
  | .frame id pc => some (w.frame id pc)
  | .notify id n => some (w.notify id n)
  | .countdown id p => some (w.countdown id p)
  | .pollFanIn id waker => some (w.pollFanIn id waker)
  | .startFrames frames id waker => some (w.startFrames frames id waker)
  | .collect id => some (w.collect id)
  | .wake waker => some (w.wake who waker)
  | .wakeRef waker => some (w.wakeRef who waker)
  | .wakeAll [] => some (w.gives .unit)
  | .wakeAll (waker :: rest) => some (w.runs (.wake waker) [.wakeRest rest])
  | .wakeEach [] => some (w.gives .unit)
  | .wakeEach (waker :: rest) => some (w.runs (.wakeRef waker) [.wakeEachRest rest])
  | .request id pc => some (w.request id pc)
  | .callback c => some (w.callback c)
  | .stop id pc => some (w.stop id pc)
  | .finishWork id => some (w.finishWork id)
  | .events id mode pc => w.events? id mode pc
  | .call timer c => some (w.call timer c)
  | .arrive wait => some (w.arrive wait)
  | .postWait wait => some (w.postWait wait)
  | .keep timer k => w.keep? timer k
  | .discard losses => some (w.discard losses)
  | .awaitLatch _ | .awaitGate .. | .awaitActive .. | .join _ =>
    if w.ready job then some (w.gives .unit) else none

/-- The next of some steps, or their answers. -/
def nextStep (w : World) (cont : List Scenario.Step → Cont) (done : List Value) :
    List Scenario.Step → Move
  | [] => w.answers (.list done.reverse)
  | s :: rest => w.runs (.step s) [cont rest]

/-- What a thread came to, as the answer of the step that started it. -/
def threadAnswer (w : World) (thread : Nat) : Value :=
  match w.resultOf? thread with
  | some (.ok (.count n)) => .nat n
  | some (.ok (.outcome o)) => outcomeValue o
  | some (.error p) => p.toValue
  | _ => .null

/-- Hands a result to a continuation; none if it is not one that the continuation can get. -/
def resume? (w : World) (c : Cont) (r : Ret) : Option Move :=
  match c, r with
  | .resume f, _ => some ⟨w, f, [], none⟩
  | .jobs [], r => some (w.gives r)
  | .jobs (j :: js), _ => some (w.runs j [.jobs js])
  | .losing ls, r => some (w.losing ls (.give r))
  | .discarding ls, _ => some (w.runs (.discard ls) [])
  | .restore who, r => some { w.gives r with who := some who }
  | .answering v, _ => some (w.answers v)
  | .counted, .count n => some (w.answers (.nat n))
  | .outcomeAnswered, .outcome o => some (w.answers (outcomeValue o))
  | .steps rest done, .unit => some (w.nextStep (.steps · done) done rest)
  | .steps rest done, .answer v => some (w.nextStep (.steps · (v :: done)) (v :: done) rest)
  | .caughtSteps rest done, .unit => some (w.nextStep (.caughtSteps · done) done rest)
  | .caughtSteps rest done, .answer v =>
    some (w.nextStep (.caughtSteps · (v :: done)) (v :: done) rest)
  | .calledBack rest owned guards, .answer v =>
    some ((w.note (.single "do" v)).runs (.callbackSteps rest owned guards) [])
  | .polledTask name whenReady, .polled ready t => some (w.polledTask name whenReady ready t)
  | .polledFanIn name id, .outputs ts => some (w.polledFanIn name id ts)
  | .stopWorkers id threads, .answer v =>
    some (w.runs (.stop id .raise) [.jobs [.join threads], .answering v])
  | .joinBlocked thread, .answer v => some (w.runs (.join [thread]) [.blockedJoined thread v])
  | .blockedJoined thread v, _ =>
    some (w.answers (.record [("processed", w.threadAnswer thread), ("steps", v)]))
  | .joinBackground thread, .answer v => some (w.runs (.join [thread]) [.backgroundJoined thread v])
  | .backgroundJoined thread v, _ =>
    some (w.answers (.record [("result", w.threadAnswer thread), ("steps", v)]))
  | .registered name r, _ =>
    let (w, lost, v) := w.putRegistration name r
    some (w.answersLosing lost v)
  | .record r, .suspended b => some (w.gives (.polled false ⟨some (r.suspend b)⟩))
  | .record r, .ended o => some (w.settle r o)
  | .layer, .polled false t => some (w.gives (.suspended (.layer t)))
  | .layer, .polled true t => some (w.ending t [] fun o => .give (.ended o))
  | .transfer id hopped _, .polled false t =>
    some (w.gives (.suspended (.transfer id (.awaiting hopped t))))
  | .transfer id hopped waker, .polled true t =>
    match t.takeOutcome with
    | (.ok o, t) => some (w.follow id waker [.task t] (Transfer.onward hopped o))
    | (.error p, t) => some (w.losing [.task t, .service id] (.fail p))
  | .awaitTask s caught _, .polled false t => some (w.suspends (.task t caught) s)
  | .awaitTask s caught waker, .polled true t =>
    match t.takeOutcome with
    | (.ok o, t) => some (w.losing [.task t] (.run (.use o caught s waker)))
    | (.error p, t) => some (w.losing (.task t :: s.guardLosses) (.fail p))
  | .awaitReady s reads _, .polled false t => some (w.suspends (.readiness t reads) s)
  | .awaitReady s reads waker, .polled true t => some (w.readyRead t reads s waker)
  | .awaitFanIn id s _, .outputs none => some (w.suspends (.fanIn id) s)
  | .awaitFanIn id s waker, .outputs (some ts) => some (w.fanInRead id ts s waker)
  | .yielded s left, _ => some (w.suspends (.yields left) s)
  | .did s waker, .answer v => some ((w.note (.single "do" v)).runs (.script s waker) [])
  | .waited frame latch, _ => some (w.runs (.awaitLatch latch) [.woken frame])
  | .woken frame, _ => some (w.syncWaited frame)
  | .framePolled id, .polled ready t => some (w.framePolled id ready t)
  | .startRest frames id waker, _ => some (w.runs (.startFrames frames id waker) [])
  | .enlisted _, .flag true => some (w.gives (.outputs none))
  | .enlisted id, .flag false => some (w.runs (.collect id) [])
  | .wakeRest ws, _ => some (w.runs (.wakeAll ws) [])
  | .wakeEachRest ws, _ => some (w.runs (.wakeEach ws) [])
  | .request id pc, _ => some (w.runs (.request id pc.afterFirst) [])
  | .events id mode pc, _ => some (w.runs (.events id mode pc.afterRun) [])
  | .keep timer k served, _ => some (w.losing [.wait served] (.run (.keep timer k)))
  | _, _ => none

/-- Lets a panic fall through a continuation. -/
def unwind (w : World) (c : Cont) (p : Panic) : Move :=
  match c with
  | .losing ls | .discarding ls => w.losing ls (.fail p)
  | .restore who => { w.fails p with who := some who }
  | .caughtSteps rest done =>
    w.nextStep (.caughtSteps · (p.toValue :: done)) (p.toValue :: done) rest
  | .calledBack _ owned guards => w.losing (Callback.script [] owned guards).losses (.fail p)
  | .polledFanIn name id =>
    let (lost, w) := w.putFanIn name id
    w.losing lost (.fail p)
  | .record r => w.settle r (.error p.toError)
  | .transfer id .. => w.losing [.service id] (.fail p)
  | .awaitTask s .. | .awaitReady s .. | .yielded s _ | .did s _ => w.losing s.guardLosses (.fail p)
  | .awaitFanIn id s _ => w.losing (.fanIn id :: s.guardLosses) (.fail p)
  | .waited frame _ | .woken frame => w.losing [.frame frame] (.fail p)
  | .wakeRest ws => w.losing (ws.map .waker) (.fail p)
  | .request _ pc => w.losing (unrun pc) (.fail p)
  | .events id .. => (w.leaveLoop id).fails p
  | _ => w.fails p

/-- What a thread does next, and the stack below that; none if it waits or has ended. -/
def react? (w : World) (t : Thread) : Option (Move × List Cont) :=
  match t.focus, t.stack with
  | .run job, stack => (w.work? t.who job).map (·, stack)
  | .give r, c :: stack => (w.resume? c r).map (·, stack)
  | .fail p, c :: stack => some (w.unwind c p, stack)
  | _, [] => none

/-- The next step of a thread; none if it waits or has ended. -/
def turn? (w : World) (t : Thread) : Option (World × Thread) := do
  let (move, stack) ← w.react? t
  return (move.world, ⟨move.who.getD t.who, move.focus, move.push ++ stack⟩)

/-- The next step of the thread under a number. -/
def stepThread? (w : World) (i : Nat) : Option World := do
  let t ← w.threads[i]?
  let (w, t) ← w.turn? t
  return { w with threads := w.threads.setIfInBounds i t }

end TaskDispatch.Machine.World
