/-
Cancellation, services and timers at work.

A request runs the detached callbacks one after another on the requesting thread;
if one panics the rest are lost unrun.  A caller in a service's event loop gives
its place back in whatever way it leaves.  The timer thread arrives at a timer's
rendezvous when it fires it, and lets go of its share of the wait.
-/
import TaskDispatch.Machine.Discard

namespace TaskDispatch.Machine.World

/-- The next step of a caller of a source's request. -/
def request (w : World) (id : Nat) (pc : Source.Request Callback) : Move :=
  match pc with
  | .running (c :: _) => w.runs (.callback c) [.request id pc]
  | .returned => w.gives .unit
  | .raise | .detach | .running [] =>
    match w.sources.get? id with
    | none => w.gives .unit
    | some s =>
      let (s, pc) := pc.step s
      { w with sources := w.sources.put id s }.runs (.request id pc) []

/-- The callbacks that a panic keeps from running. -/
def unrun : Source.Request Callback → List Loss
  | .running (_ :: rest) => rest.map .callback
  | _ => []

/-- Runs a callback. -/
def callback (w : World) : Callback → Move
  | .script steps owned guards => w.runs (.callbackSteps steps owned guards) []
  | .sweep timer => w.runs (.call timer .sweep) []

/-- The next step of a caller that stops a service. -/
def stop (w : World) (id : Nat) (pc : Stop) : Move :=
  match pc with
  | .returned => w.gives .unit
  | .raise | .posting _ =>
    match w.services.get? id with
    | none => w.gives .unit
    | some s =>
      let (roster, port, pc) := pc.step s.roster ((w.ports.get? s.port).getD {})
      { w with
        services := w.services.put id { s with roster }
        ports := w.ports.put s.port port }.runs (.stop id pc) []

/-- A unit of work on a service is there. -/
def startWork (w : World) (id : Nat) : World :=
  { w with services := w.services.modify id fun s => { s with work := s.work.start } }

/-- A unit of work is done: the last one stops the service. -/
def finishWork (w : World) (id : Nat) : Move :=
  match w.services.get? id with
  | none => w.gives .unit
  | some s =>
    let (last, work) := s.work.finish
    let w := { w with services := w.services.put id { s with work } }
    if last then w.runs (.stop id .raise) [] else w.gives .unit

/-- The next step of a caller in a service's event loop; none while it waits for an event. -/
def events? (w : World) (id : Nat) (mode : EventMode) (pc : EventLoop Waker) : Option Move :=
  match pc with
  | .run waker _ => some (w.runs (.wake waker) [.events id mode pc])
  | .returned n => some (w.gives (.count n))
  | .enter | .take _ | .recheck _ | .leave _ =>
    match w.services.get? id with
    | none => some (w.gives (.count 0))
    | some s => do
      let (roster, port, pc) ← pc.step? mode s.roster ((w.ports.get? s.port).getD {})
      return { w with
        services := w.services.put id { s with roster }
        ports := w.ports.put s.port port }.runs (.events id mode pc) []

/-- A caller leaves the event loop because what it ran has panicked. -/
def leaveLoop (w : World) (id : Nat) : World :=
  { w with services := w.services.modify id fun s => { s with roster := s.roster.leave } }

/-- The next step of a caller of a timer thread. -/
def call (w : World) (timer : Nat) (c : Timer.Caller Nat) : Move :=
  match w.timers.get? timer, c with
  | none, _ | some _, .done => w.gives .unit
  | some t, c =>
    let (shared, c) := c.step false t.shared
    { w with timers := w.timers.put timer { t with shared } }.runs (.call timer c) []

/-- Arrives at the rendezvous of a timed wait: the second to come posts the hop. -/
def arrive (w : World) (wait : Nat) : Move :=
  match w.waits.get? wait with
  | none => w.gives .unit
  | some t =>
    let (second, rendezvous) := t.rendezvous.arrive
    let w := { w with waits := w.waits.put wait { t with rendezvous } }
    if second then w.runs (.postWait wait) [] else w.gives .unit

/-- Posts the hop of a timed wait. -/
def postWait (w : World) (wait : Nat) : Move :=
  match w.waits.get? wait with
  | none => w.gives .unit
  | some t => ((w.holdHop t.hop).post t.port (.resume (.hop t.hop))).gives .unit

/-- Whether the token of a timed wait was asked to cancel. -/
def isCancelled (w : World) (wait : Nat) : Bool :=
  (w.waits.get? wait).any fun t => w.isRequested t.source

/-- The next step of a timer thread; none while it is parked. -/
def keep? (w : World) (timer : Nat) (k : Timer.Keeper Nat) : Option Move :=
  match w.timers.get? timer with
  | none => some (w.gives .unit)
  | some t =>
    match k.pc, k.served? with
    | .exited, _ => some (w.gives .unit)
    | .firing .., some (wait, k) => some (w.runs (.arrive wait) [.keep timer k wait])
    | _, some (wait, k) => some (w.losing [.wait wait] (.run (.keep timer k)))
    | _, none => do
      let (shared, k) ← k.step? w.isCancelled w.now true t.shared
      return { w with timers := w.timers.put timer { t with shared } }.runs (.keep timer k) []

end TaskDispatch.Machine.World
