/-
Letting go.

`Loss.step` lets go of one thing.  What it held is lost next, before anything else
that was to be lost, in the order in which its owner lists it: what a body awaits
before the body's guards, the guards latest first; a timed wait's token before its
hop and its hop before its registration; a service's port before its timer thread.
Only the end of a work scope and of a timer thread are jobs of their own.
-/
import TaskDispatch.Machine.World

namespace TaskDispatch.Machine

/-- What a waker holds. -/
def Waker.losses : Waker → List Loss
  | .counting _ => []
  | .frame id => [.frame id]
  | .hop id => [.hop id]

/-- What a callback owns: registrations in order, then guards. -/
def Callback.losses : Callback → List Loss
  | .script _ owned guards => owned.map .registration ++ guards.map .guard
  | .sweep _ => []

/-- What a token holds. -/
def tokenLosses (token : Option Nat) : List Loss := token.toList.map .source

/-- What a timed wait holds, the service last. -/
def DelayedHop.losses (t : DelayedHop) : List Loss :=
  tokenLosses t.source ++ t.hop.toList.map .hop ++ t.registration.toList.map .registration ++
    [.service t.service]

/-- What is lost with what a body awaits. -/
def Awaiting.losses : Awaiting Body → List Loss
  | .task t _ => [.task t]
  | .readiness t _ => [.task t]
  | .fanIn id => [.fanIn id]
  | .schedule service hop => hop.toList.map .hop ++ [.service service]
  | .timed wait _ => wait.losses
  | .parked | .gate _ | .yields _ => []

/-- The guards of a scripted body. -/
def Script.guardLosses (s : Script Body) : List Loss := s.guards.map .guard

/-- What is lost with a transfer onto a service. -/
def transferLosses (service : Nat) : Transfer Body Value → List Loss
  | .hopping hop (.task t) => hop.toList.map .hop ++ [.service service, .task t]
  | .hopping hop (.outcome _) => hop.toList.map .hop ++ [.service service]
  | .awaiting _ t => [.task t, .service service]

/-- What is lost with a body. -/
def Body.losses : Body → List Loss
  | .script s => (s.awaiting.toList.map .awaiting) ++ s.guardLosses
  | .layer t => [.task t]
  | .transfer service b => transferLosses service b

/-- What is lost with a frame's notifier. -/
def Notifier.losses : Notifier → List Loss
  | .countdown id => [.countdown id]
  | .counting | .latch _ => []

/-- The wakers in a port. -/
def portLosses (p : Port Waker) : List Loss :=
  p.queue.flatMap fun
    | .wakeUp => []
    | .resume w => w.losses

/-- What the last holder of an object has to let go of. -/
def lastLosses {α : Type} (f : α → List Loss) : Option α → List Loss
  | none => []
  | some a => f a

namespace World

/-- Takes a registration off its source.  The callback, if it is still there, goes before the source. -/
def unregister (w : World) (r : Registration) : List Loss × World :=
  match r.place with
  | none => ([], w)
  | some (source, key) =>
    match w.sources.get? source with
    | none => ([.source source], w)
    | some s =>
      let (callback, s) := s.withdraw key
      (callback.toList.map .callback ++ [.source source], { w with sources := w.sources.put source s })

/-- Lets go of one thing: what it held is lost next. -/
def lose (w : World) : Loss → List Loss × World
  | .guard id => ([], w.note (.single "drop" id))
  | .task t => (t.body?.toList.map .body, w)
  | .body b => (b.losses, w)
  | .awaiting a => (a.losses, w)
  | .waker waker => (waker.losses, w)
  | .frame id =>
    let (last, frames) := w.frames.release id
    (lastLosses (fun f => .task f.task :: f.notifier.losses) last, { w with frames })
  | .hop id =>
    let (last, hops) := w.hops.release id
    (lastLosses (fun h => h.waker.losses) last, { w with hops })
  | .wait id =>
    let (last, waits) := w.waits.release id
    (lastLosses (fun t => tokenLosses t.source ++ [.port t.port, .hop t.hop]) last, { w with waits })
  | .countdown id =>
    let (last, countdowns) := w.countdowns.release id
    (lastLosses (fun c => lastLosses Waker.losses c.waker) last, { w with countdowns })
  | .fanIn id =>
    let (last, fanIns) := w.fanIns.release id
    (lastLosses (fun f => f.pending.map .task ++ f.frames.map .frame ++ [.countdown f.countdown]) last,
      { w with fanIns })
  | .service id =>
    let (last, services) := w.services.release id
    (lastLosses (fun s => .port s.port :: s.timer.toList.map .timer) last, { w with services })
  | .port id =>
    let (last, ports) := w.ports.release id
    (lastLosses portLosses last, { w with ports })
  | .source id =>
    let (last, sources) := w.sources.release id
    (lastLosses (fun s => s.callbacks.drain.1.map .callback) last, { w with sources })
  | .registration r => w.unregister r
  | .callback c => (c.losses, w)
  | .scope _ => ([], w)
  | .timer _ => ([], w)

/-- Lets go of the first of these and goes on with the rest. -/
def discard (w : World) : List Loss → Move
  | [] => w.gives .unit
  | .scope service :: rest => w.runs (.finishWork service) [.discarding (.service service :: rest)]
  | .timer id :: rest =>
    match w.timers.get? id with
    | none => w.runs (.discard rest) []
    | some t => w.runs (.call id .shutdown) [.jobs [.join [t.thread]], .discarding rest]
  | l :: rest =>
    let (more, w) := w.lose l
    w.runs (.discard (more ++ rest)) []

end World

end TaskDispatch.Machine
