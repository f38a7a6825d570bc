/-
Frames, fan-ins and wakers at work.

Waking a frame is resuming it on the waking thread: the task it drives is polled
then and there.  A frame that is polled holds itself, through the waker it polls
with, until its caller leaves.  A fan-in starts its frames one after another on its
first poll, and only then counts itself in; later polls look whether the count has
run out, and the waker of the first poll stays the one that is woken.
-/
import TaskDispatch.Machine.Discard

namespace TaskDispatch.Machine.World

/-- Wakes a counting waker.  One whose name starts with `boom` panics when it has counted. -/
def count (w : World) (name : String) : Move :=
  let w := { w with wakes := w.wakes.update name 0 (· + 1) }
  let w := w.note (.single "woken" (.text name))
  if name.startsWith "boom" then w.fails (.text ("waker " ++ name)) else w.gives .unit

/-- Wakes and lets go of the waker. -/
def wake (w : World) (who : Who) : Waker → Move
  | .counting name => w.count name
  | .frame id => w.runs (.frame id .load) [.losing [.frame id]]
  | .hop id =>
    match w.hops.get? id with
    | none => w.gives .unit
    | some h =>
      { w with hops := w.hops.put id (h.land who.token) }.runs (.wakeRef h.waker) [.losing [.hop id]]

/-- Wakes and keeps the waker. -/
def wakeRef (w : World) (who : Who) : Waker → Move
  | .counting name => w.count name
  | .frame id => w.runs (.frame id .load) []
  | .hop id =>
    match w.hops.get? id with
    | none => w.gives .unit
    | some h => { w with hops := w.hops.put id (h.land who.token) }.runs (.wakeRef h.waker) []

/-- The text of the panic of a frame whose word nobody may have written. -/
def brokenFrame (word : Frame.Word) : Panic :=
  let number := match word with
    | .idle => 0 | .running => 1 | .notified => 2 | .completed => 3 | .taken => 4
  .text s!"internal error: entered unreachable code: frame left the running state while polled: {number}"

/-- The next step of a caller of a frame's `resume`. -/
def frame (w : World) (id : Nat) (pc : Frame.Pc) : Move :=
  match w.frames.get? id with
  | none => w.gives .unit
  | some f =>
    match pc with
    | .polling =>
      { w with frames := w.frames.put id { f with task := .empty } }.runs
        (.pollTask f.task (.frame id)) [.framePolled id]
    | .notifying => w.runs (.notify id f.notifier) []
    | .done => w.gives .unit
    | .broken => w.fails (brokenFrame f.word)
    | .exchange seen =>
      let (word, next) := (Frame.Pc.exchange seen).step false f.word
      let w := { w with frames := w.frames.put id { f with word } }
      if next = .polling then (w.holdFrame id).runs (.frame id next) [.losing [.frame id]]
      else w.runs (.frame id next) []
    | .load | .retire | .renew | .publish =>
      let (word, next) := pc.step false f.word
      { w with frames := w.frames.put id { f with word } }.runs (.frame id next) []

/-- The poll of a frame's task is over. -/
def framePolled (w : World) (id : Nat) (ready : Bool) (t : BodyTask) : Move :=
  { w with frames := w.frames.modify id ({ · with task := t }) }.runs
    (.frame id (.afterPoll ready)) []

/-- Tells whoever waits for a frame that its task has an outcome. -/
def notify (w : World) (frame : Nat) : Notifier → Move
  | .counting =>
    { w with frames := w.frames.modify frame fun f => { f with notified := f.notified + 1 } }.gives .unit
  | .latch id => { w with latches := w.latches.modify id Latch.set }.gives .unit
  | .countdown id => w.runs (.countdown id .arrive) []

/-- The next step of a party of a fan-in's countdown. -/
def countdown (w : World) (id : Nat) (p : Countdown.Party Waker) : Move :=
  match w.countdowns.get? id with
  | none => w.gives .unit
  | some c =>
    match p with
    | .wake waker => w.runs (.wake waker) []
    | .left => w.gives .unit
    | .suspended => w.gives (.flag true)
    | .proceeds => w.gives (.flag false)
    | .arrive | .announce | .collect | .register _ | .enlist | .claim =>
      let (c, p) := p.step c
      { w with countdowns := w.countdowns.put id c }.runs (.countdown id p) []

/-- A frame around each of the pending tasks, all with one countdown. -/
def addFrames (w : World) (countdown : Nat) : List BodyTask → List Nat × World
  | [] => ([], w)
  | t :: rest =>
    let (id, w) := { w with countdowns := w.countdowns.hold countdown }.addFrame t (.countdown countdown)
    let (ids, w) := w.addFrames countdown rest
    (id :: ids, w)

/-- Polls a fan-in. -/
def pollFanIn (w : World) (id : Nat) (waker : Waker) : Move :=
  match w.fanIns.get? id with
  | none => w.gives (.outputs none)
  | some f =>
    match Countdown.glance f.started f.pending.length
        ((w.countdowns.get? f.countdown).any (·.isReady)) with
    | .nothing => { w with fanIns := w.fanIns.put id { f with started := true } }.gives (.outputs (some []))
    | .start =>
      let (frames, w) := w.addFrames f.countdown f.pending
      { w with fanIns := w.fanIns.put id { f with started := true, pending := [], frames } }.runs
        (.startFrames frames id waker) []
    | .collect => w.runs (.collect id) []
    | .pending => w.gives (.outputs none)

/-- Starts the frames of a fan-in, then leaves the waker and counts the awaiter in. -/
def startFrames (w : World) (frames : List Nat) (fanIn : Nat) (waker : Waker) : Move :=
  match frames with
  | f :: rest => w.runs (.frame f .load) [.startRest rest fanIn waker]
  | [] =>
    match w.fanIns.get? fanIn with
    | none => w.gives (.outputs none)
    | some f => (w.holdWaker waker).runs (.countdown f.countdown (.register waker)) [.enlisted fanIn]

/-- The tasks of completed frames; none if one of them is not completed. -/
def takeTasks (w : World) : List Nat → Option (List BodyTask × World)
  | [] => some ([], w)
  | f :: rest => do
    let (t, w) ← w.takeTask f
    let (ts, w) ← w.takeTasks rest
    return (t :: ts, w)

/-- Takes the outputs of a fan-in, which keeps none. -/
def collect (w : World) (id : Nat) : Move :=
  match w.fanIns.get? id with
  | none => w.gives (.outputs none)
  | some f =>
    let w := { w with fanIns := w.fanIns.put id { f with frames := [] } }
    match w.takeTasks f.frames with
    | none =>
      w.losing (f.frames.map .frame)
        (.fail (.text "internal error: entered unreachable code: fan-in completed before one of its tasks"))
    | some (ts, w) => w.losing (f.frames.map .frame) (.give (.outputs (some ts)))

end TaskDispatch.Machine.World
