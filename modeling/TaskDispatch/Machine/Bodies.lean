/-
Tasks and their bodies at work.

Polling a task lends its body to the poll.  A body that suspends comes back; one
that ends or panics is gone, and the outcome, or the panic as an error, goes into
the task's record.  What a body holds when it ends in any way is lost then: first
what it awaits, then its guards, the latest first.
-/
import TaskDispatch.Machine.Discard

namespace TaskDispatch.Machine.World

/-- Polls a task until it has an outcome or suspends. -/
def pollTask (w : World) (t : BodyTask) (waker : Waker) : Move :=
  match t.begin? with
  | none => w.gives (.polled true t)
  | some (body, r) => w.runs (.pollBody body waker) [.record r]

/-- A body ended with an outcome. -/
def settle (w : World) (r : Record Body Value) (o : Outcome Value) : Move :=
  match r.finish o with
  | .ok r => w.gives (.polled true ⟨some r⟩)
  | .error p => w.fails p

/-- Goes on with a poll of a transfer, which lets go of `ls` unless it is to wait. -/
def follow (w : World) (service : Nat) (waker : Waker) (ls : List Loss) : Course Body Value → Move
  | .await hopped t => w.runs (.pollTask t waker) [.transfer service hopped waker]
  | .go b => w.losing ls (.run (.pollBody (.transfer service b) waker))
  | .suspend b => w.gives (.suspended (.transfer service b))
  | .post cargo =>
    let (new, w) := w.postHop service waker
    w.losing ls (.give (.suspended (.transfer service (.hopping (some new) cargo))))
  | .finish o => w.losing (ls ++ [.service service]) (.give (.ended o))

/-- Polls a body. -/
def pollBody (w : World) (who : Who) (waker : Waker) : Body → Move
  | .script s =>
    match s.awaiting with
    | none => w.runs (.script s waker) []
    | some a => w.runs (.await a { s with awaiting := none } waker) []
  | .layer t => w.runs (.pollTask t waker) [.layer]
  | .transfer service b => w.follow service waker (b.hop?.toList.map .hop) (b.course (w.hopMove who))

/-- Moves the outcome out of a task that has been polled to its end, lets go of the task and of `ls`,
and goes on with the outcome. -/
def ending (w : World) (t : BodyTask) (ls : List Loss) (f : Outcome Value → Focus) : Move :=
  match t.takeOutcome with
  | (.ok o, t) => w.losing (.task t :: ls) (f o)
  | (.error p, t) => w.losing (.task t :: ls) (.fail p)

/-- Runs the next statement of a scripted body that awaits nothing. -/
def script (w : World) (who : Who) (s : Script Body) (waker : Waker) : Move :=
  match s.todo with
  | [] => w.runs (.finish (.ok s.acc) s) []
  | stmt :: todo =>
    let s := { s with todo }
    match stmt with
    | .log v => (w.note v).runs (.script s waker) []
    | .logAcc => (w.note (.single "acc" s.acc)).runs (.script s waker) []
    | .logThread => (w.note (.single "thread" (.text who.label))).runs (.script s waker) []
    | .set v => w.runs (.script { s with acc := v } waker) []
    | .ret v => w.runs (.finish (.ok (v.getD s.acc)) s) []
    | .fail e => w.runs (.finish (.error e) s) []
    | .panic p => w.losing s.guardLosses (.fail p)
    | .guard id => w.runs (.script { s with guards := id :: s.guards } waker) []
    | .loop n stmts => w.runs (.script { s with todo := (List.replicate n stmts).flatten ++ todo } waker) []
    | .park gate =>
      (w.waitAt gate waker).gives (.suspended (.script { s with awaiting := some .parked }))
    | .gate gate => w.runs (.await (.gate gate) s waker) []
    | .yield n => w.runs (.await (.yields n) s waker) []
    | .await spec caught =>
      let (t, w) := w.build spec
      w.runs (.await (.task t caught) s waker) []
    | .whenReady spec reads =>
      let (t, w) := w.build spec
      (w.note (.single "is_ready" (.bool t.isReady))).runs (.await (.readiness t reads) s waker) []
    | .all specs =>
      let (ts, w) := w.buildAll specs
      let (id, w) := w.addFanIn ts
      w.runs (.await (.fanIn id) s waker) []
    | .schedule name =>
      let (service, w) := w.serviceOf name
      (w.holdService service).runs (.await (.schedule service none) s waker) []
    | .after name delay source caught =>
      let (service, w) := w.serviceOf name
      let w := w.holdService service
      let (token, w) := match source with
        | none => (none, w)
        | some name =>
          let (id, w) := w.sourceOf name
          (some id, w.holdSource (some id))
      w.runs (.await (.timed { service, delay, source := token } caught) s waker) []
    | .perform step => w.runs (.step step) [.did s waker]
    | .skip => w.runs (.script s waker) []

/-- A scripted body ends. -/
def finish (w : World) (o : Outcome Value) (s : Script Body) : Move :=
  let o := if s.plain then .ok (outcomeValue o) else o
  w.losing s.guardLosses (.give (.ended o))

/-- Goes on with the outcome of what a scripted body awaited: caught, the outcome is the accumulator;
else its value is, and an error ends the body. -/
def use (w : World) (o : Outcome Value) (caught : Bool) (s : Script Body) (waker : Waker) : Move :=
  match caught, o with
  | true, o => w.runs (.script { s with acc := outcomeValue o } waker) []
  | false, .ok v => w.runs (.script { s with acc := v } waker) []
  | false, .error e => w.runs (.finish (.error e) s) []

/-- A scripted body suspends on what it awaits. -/
def suspends (w : World) (a : Awaiting Body) (s : Script Body) : Move :=
  w.gives (.suspended (.script { s with awaiting := some a }))

/-- Reads an outcome `n` times without moving it, and logs what it reads. -/
def readOutcome (w : World) (t : BodyTask) : (n : Nat) → Except Panic Unit × World
  | 0 => (.ok (), w)
  | n + 1 =>
    match t.result with
    | .error p => (.error p, w)
    | .ok o => (w.note (outcomeValue o)).readOutcome t n

/-- A task whose readiness a body awaited is ready. -/
def readyRead (w : World) (t : BodyTask) (reads : Nat) (s : Script Body) (waker : Waker) : Move :=
  match w.readOutcome t reads with
  | (.error p, w) => w.losing (.task t :: s.guardLosses) (.fail p)
  | (.ok (), w) =>
    match t.takeOutcome with
    | (.ok o, t) =>
      w.losing [.task t] (.run (.script { s with acc := outcomeValue o } waker))
    | (.error p, t) => w.losing (.task t :: s.guardLosses) (.fail p)

/-- Moves the outcomes out of the outputs of a fan-in, first to last. -/
def outcomesOf : List BodyTask → Except Panic (List Value)
  | [] => .ok []
  | t :: rest => do
    let o ← t.takeOutcome.1
    return outcomeValue o :: (← outcomesOf rest)

/-- The outputs of the fan-in that a body awaited are there. -/
def fanInRead (w : World) (id : Nat) (ts : List BodyTask) (s : Script Body) (waker : Waker) : Move :=
  let gone := .fanIn id :: ts.map .task
  match outcomesOf ts with
  | .ok vs => w.losing gone (.run (.script { s with acc := .list vs } waker))
  | .error p => w.losing (gone ++ s.guardLosses) (.fail p)

/-- What a timed wait and the timer thread share, new and held by both, and its hop, held by what they
share and by the waiting task. -/
def openWait (w : World) (source : Option Nat) (port : Nat) (waker : Waker) : Nat × Nat × World :=
  let w := (w.holdWaker waker).holdSource source
  let (hop, hops) := w.hops.add (Hop.new waker)
  let (wait, waits) := w.waits.add { source, port, hop }
  (wait, hop, { w with hops := hops.hold hop, waits := waits.hold wait, ports := w.ports.hold port })

/-- Has a token's cancellation sweep a timer thread's queue, and answers whether it comes too late for
that because cancellation was requested meanwhile. -/
def subscribe (w : World) (token : Option Nat) (timer : Nat) : Option Registration × Bool × World :=
  match token with
  | none => (none, false, w)
  | some id =>
    match w.sources.get? id with
    | none => (none, false, w)
    | some source =>
      match source.enrol (.sweep timer) with
      | (none, _) => (some .inert, true, w)
      | (some key, source) =>
        (some ⟨some (id, key)⟩, false, { w with sources := (w.sources.put id source).hold id })

/-- What a timed wait does while it registers, as a job. -/
def errand (timer wait : Nat) : Timer.Errand Nat → Job
  | .call c => .call timer c
  | .arrive => .arrive wait

/-- Starts a timed wait.  It subscribes to its token before it puts its timer on the inbox of the service's
timer thread, so that a request which the subscription misses is seen by the timer thread, and it
arrives at the rendezvous last. -/
def startWait (w : World) (t : DelayedHop) (caught : Bool) (s : Script Body) (waker : Waker) : Move :=
  match w.timerOf t.service, w.services.get? t.service with
  | some (timer, w), some service =>
    let (wait, hop, w) := w.openWait t.source service.port waker
    let (registration, late, w) := w.subscribe t.source timer
    let (now, w) := w.readClock
    let armed : Timer.Entry Nat := ⟨t.delay.deadline now, wait⟩
    let t := { t with hop := some hop, registration }
    w.begins
      [.jobs ((Timer.errands late armed).map (errand timer wait) ++ [.discard [.wait wait]]),
        .resume (.give (.suspended (.script { s with awaiting := some (.timed t caught) })))]
  | _, _ => w.suspends (.timed t caught) s

/-- The value of a timed wait that was not cancelled. -/
def elapsed (w : World) (token : Option Nat) : Outcome Value :=
  if w.isRequested token then .error .operationCancelled else .ok (.text "elapsed")

/-- Polls a timed wait. -/
def pollWait (w : World) (who : Who) (t : DelayedHop) (caught : Bool) (s : Script Body)
    (waker : Waker) : Move :=
  match t.hop with
  | none =>
    if w.isRequested t.source then
      w.losing t.losses (.run (.use (.error .operationCancelled) caught s waker))
    else w.startWait t caught s waker
  | some hop =>
    match w.hopMove who (some hop) with
    | .arrive =>
      match t.registration with
      | some r =>
        w.losing [.registration r] (.run (.await (.timed { t with registration := none } caught) s waker))
      | none => w.losing t.losses (.run (.use (w.elapsed t.source) caught s waker))
    | .wait => w.suspends (.timed t caught) s
    | .post =>
      let (new, w) := w.postHop t.service waker
      w.losing [.hop hop]
        (.give (.suspended (.script { s with awaiting := some (.timed { t with hop := some new } caught) })))

/-- Polls what a scripted body awaits. -/
def await (w : World) (who : Who) (a : Awaiting Body) (s : Script Body) (waker : Waker) : Move :=
  match a with
  | .task t caught => w.runs (.pollTask t waker) [.awaitTask s caught waker]
  | .readiness t reads => w.runs (.pollTask t waker) [.awaitReady s reads waker]
  | .fanIn id => w.runs (.pollFanIn id waker) [.awaitFanIn id s waker]
  | .parked => w.runs (.script s waker) []
  | .gate name =>
    if (w.gateOf name).isOpen then w.runs (.script s waker) []
    else (w.waitAt name waker).suspends (.gate name) s
  | .yields 0 => w.runs (.script s waker) []
  | .yields (left + 1) => w.runs (.wakeRef waker) [.yielded s left]
  | .schedule service hop =>
    match w.hopMove who hop with
    | .arrive =>
      w.losing (hop.toList.map .hop ++ [.service service]) (.run (.script s waker))
    | .wait => w.suspends (.schedule service hop) s
    | .post =>
      let (new, w) := w.postHop service waker
      w.losing (hop.toList.map .hop)
        (.give (.suspended (.script { s with awaiting := some (.schedule service (some new)) })))
  | .timed t caught => w.pollWait who t caught s waker

/-- Drives a task through a frame of its own and waits for its latch. -/
def syncWait (w : World) (t : BodyTask) : Move :=
  let (latch, latches) := w.latches.add {}
  let (frame, w) := { w with latches }.addFrame t (.latch latch)
  w.runs (.frame frame .load) [.waited frame latch]

/-- The latch is set: takes the task out of its frame, and the outcome out of the task. -/
def syncWaited (w : World) (frame : Nat) : Move :=
  match w.takeTask frame with
  | none =>
    w.losing [.frame frame]
      (.fail (.text ("internal error: entered unreachable code: " ++
        "completion was signalled before the task completed")))
  | some (t, w) => w.ending t [.frame frame] fun o => .give (.outcome o)

end TaskDispatch.Machine.World
