/-
The world of a scenario: its named things, its objects, its threads, its clock and
its log.

The functions here read and change the world in one atomic step.  What can wait,
wake or panic is a job and belongs to the modules that follow.
-/
import TaskDispatch.Machine.Names
import TaskDispatch.Machine.Pool
import TaskDispatch.Machine.Thread

namespace TaskDispatch.Machine

open Scenario (Spec)

/-- Everything a scenario acts on. -/
structure World where
  -- names
  taskNames : Names BodyTask := []
  frameNames : Names Nat := []
  fanInNames : Names Nat := []
  outputNames : Names (List (Option BodyTask)) := []
  gates : Names Gate := []
  wakes : Names Nat := []
  sourceNames : Names Nat := []
  tokenNames : Names (Option Nat) := []
  registrationNames : Names Registration := []
  serviceNames : Names Nat := []
  scopeNames : Names Nat := []
  helpers : Names Nat := []
  -- objects
  frames : Pool FrameObject := {}
  hops : Pool (Hop Waker) := {}
  waits : Pool TimedWait := {}
  countdowns : Pool (Countdown Waker) := {}
  fanIns : Pool FanIn := {}
  latches : Pool Latch := {}
  sources : Pool (Source Callback) := {}
  services : Pool Service := {}
  ports : Pool (Port Waker) := {}
  timers : Pool TimerThread := {}
  -- threads
  threads : Array Thread := #[]
  nextToken : Nat := 0
  -- what can be seen
  now : Nat := Timer.nanosPerSecond
  log : List Value := []

/-- What a thread's step comes to: the world, the thread's focus, what it puts on its stack, and who it
is from now on. -/
structure Move where
  world : World
  focus : Focus
  push : List Cont := []
  who : Option Who := none

namespace World

/-- Adds a line to the log, which is kept latest first. -/
def note (w : World) (v : Value) : World := { w with log := v :: w.log }

/-! ### Moves -/

def gives (w : World) (r : Ret) : Move := ⟨w, .give r, [], none⟩

def fails (w : World) (p : Panic) : Move := ⟨w, .fail p, [], none⟩

def runs (w : World) (j : Job) (push : List Cont) : Move := ⟨w, .run j, push, none⟩

/-- Goes on with what is put on the stack. -/
def begins (w : World) (push : List Cont) : Move := ⟨w, .give .unit, push, none⟩

/-- Lets go of losses and then goes on. -/
def losing (w : World) (ls : List Loss) (f : Focus) : Move :=
  if ls.isEmpty then ⟨w, f, [], none⟩ else ⟨w, .run (.discard ls), [.resume f], none⟩

/-- Answers a step. -/
def answers (w : World) (v : Value) : Move := w.gives (.answer v)

/-! ### Holders -/

def holdFrame (w : World) (id : Nat) : World := { w with frames := w.frames.hold id }

def holdHop (w : World) (id : Nat) : World := { w with hops := w.hops.hold id }

def holdService (w : World) (id : Nat) : World := { w with services := w.services.hold id }

def holdSource (w : World) (source : Option Nat) : World :=
  match source with
  | none => w
  | some id => { w with sources := w.sources.hold id }

/-- A copy of a waker holds what it wakes. -/
def holdWaker (w : World) : Waker → World
  | .counting _ => w
  | .frame id => w.holdFrame id
  | .hop id => w.holdHop id

/-! ### Objects by name -/

/-- A new service with its port. -/
def addService (w : World) (setup : Setup) : Nat × World :=
  let (port, ports) := w.ports.add {}
  let (id, services) := w.services.add { setup, port }
  (id, { w with ports, services })

/-- The service of that name, made on first use. -/
def serviceOf (w : World) (name : String) : Nat × World :=
  match w.serviceNames.get? name with
  | some id => (id, w)
  | none =>
    let (id, w) := w.addService {}
    (id, { w with serviceNames := w.serviceNames.put name id })

/-- A new source under a name, and what was there before. -/
def makeSource (w : World) (name : String) : Nat × Option Nat × World :=
  let (id, sources) := w.sources.add {}
  (id, w.sourceNames.get? name, { w with sources, sourceNames := w.sourceNames.put name id })

/-- The source of that name, made on first use. -/
def sourceOf (w : World) (name : String) : Nat × World :=
  match w.sourceNames.get? name with
  | some id => (id, w)
  | none =>
    let (id, _, w) := w.makeSource name
    (id, w)

/-- The token of that name: before it is made it cannot be cancelled. -/
def tokenOf (w : World) (name : String) : Option Nat := (w.tokenNames.get? name).join

/-- Whether cancellation was requested of a token. -/
def isRequested (w : World) (token : Option Nat) : Bool :=
  match token with
  | none => false
  | some id => (w.sources.get? id).any (·.requested)

/-- The gate of that name. -/
def gateOf (w : World) (name : String) : Gate := (w.gates.get? name).getD {}

def putGate (w : World) (name : String) (g : Gate) : World :=
  { w with gates := w.gates.put name g }

/-- Puts a copy of a waker on a gate's list. -/
def waitAt (w : World) (name : String) (waker : Waker) : World :=
  let w := w.holdWaker waker
  let g := w.gateOf name
  w.putGate name { g with wakers := g.wakers ++ [waker] }

/-! ### Tasks -/

/-- Makes a task.  A slot's task is moved out of its name, which keeps an empty one. -/
def build (w : World) : Spec → BodyTask × World
  | .ready v => (.ready v, w)
  | .failed e => (.failed e, w)
  | .body stmts => (.new (.script { todo := stmts }), w)
  | .plain stmts => (.new (.script { todo := stmts, plain := true }), w)
  | .slot name =>
    match w.taskNames.get? name with
    | none => (.empty, w)
    | some t => (t, { w with taskNames := w.taskNames.put name .empty })
  | .nest layers spec =>
    let (t, w) := w.build spec
    (layers.repeat (fun t => .new (.layer t)) t, w)
  | .scheduleOn service spec =>
    let (id, w) := w.serviceOf service
    let (t, w) := (w.holdService id).build spec
    (.new (.transfer id (.scheduleOn t)), w)
  | .resumeOn service spec =>
    let (id, w) := w.serviceOf service
    let (t, w) := (w.holdService id).build spec
    (.new (.transfer id (.resumeOn t)), w)
  | .empty => (.empty, w)

/-- Makes tasks in order. -/
def buildAll (w : World) : List Spec → List BodyTask × World
  | [] => ([], w)
  | spec :: rest =>
    let (t, w) := w.build spec
    let (ts, w) := w.buildAll rest
    (t :: ts, w)

/-- Puts a task under a name; the task that was there is lost. -/
def putTask (w : World) (name : String) (t : BodyTask) : List Loss × World :=
  ((w.taskNames.get? name).toList.map .task, { w with taskNames := w.taskNames.put name t })

/-! ### Frames, fan-ins and hops -/

/-- A new frame with one holder. -/
def addFrame (w : World) (task : BodyTask) (notifier : Notifier) : Nat × World :=
  let (id, frames) := w.frames.add { task, notifier }
  (id, { w with frames })

/-- A new fan-in over tasks, with its countdown. -/
def addFanIn (w : World) (pending : List BodyTask) : Nat × World :=
  let (countdown, countdowns) := w.countdowns.add (Countdown.new pending.length)
  let (id, fanIns) := w.fanIns.add { pending, countdown }
  (id, { w with countdowns, fanIns })

/-- Moves the task out of a completed frame. -/
def takeTask (w : World) (frame : Nat) : Option (BodyTask × World) := do
  let f ← w.frames.get? frame
  let word ← f.word.take?
  return (f.task, { w with frames := w.frames.put frame { f with word, task := .empty } })

/-- Posts an event on a port. -/
def post (w : World) (port : Nat) (e : Event Waker) : World :=
  { w with ports := w.ports.modify port (·.post e) }

/-- A new hop on a service's port, held by the port and by whoever waits for it. -/
def postHop (w : World) (service : Nat) (waker : Waker) : Nat × World :=
  let w := w.holdWaker waker
  let (hop, hops) := w.hops.add (Hop.new waker)
  let w := { w with hops := hops.hold hop }
  match w.services.get? service with
  | none => (hop, w)
  | some s => (hop, w.post s.port (.resume (.hop hop)))

/-- What a poll on a thread does about the latest hop, if there is one. -/
def hopMove (w : World) (who : Who) (hop : Option Nat) : HopMove :=
  .of do return (← w.hops.get? (← hop)).landing who.token

/-! ### Threads -/

/-- Reads the clock for a deadline.  No two readings show the same instant. -/
def readClock (w : World) : Nat × World := (w.now, { w with now := w.now + 1 })

/-- Somebody new. -/
def newcomer (w : World) (label : String) : Who × World :=
  (⟨label, w.nextToken⟩, { w with nextToken := w.nextToken + 1 })

/-- Starts a thread and answers its number. -/
def spawn (w : World) (label : String) (job : Job) (stack : List Cont) : Nat × World :=
  let (who, w) := w.newcomer label
  (w.threads.size, { w with threads := w.threads.push ⟨who, .run job, stack⟩ })

/-- What a thread has come to. -/
def resultOf? (w : World) (thread : Nat) : Option (Except Panic Ret) := do
  (← w.threads[thread]?).result?

/-- The helper thread of that name, there from its first use. -/
def helper (w : World) (name : String) : Who × World :=
  match w.helpers.get? name with
  | some token => (⟨name, token⟩, w)
  | none =>
    let (who, w) := w.newcomer name
    (who, { w with helpers := w.helpers.put name who.token })

/-- The timer thread of a service, started on first use. -/
def timerOf (w : World) (service : Nat) : Option (Nat × World) := do
  let s ← w.services.get? service
  match s.timer with
  | some id => return (id, w)
  | none =>
    let (id, timers) := w.timers.add { thread := w.threads.size }
    let w := { w with timers, services := w.services.put service { s with timer := some id } }
    return (id, (w.spawn "timer" (.keep id {}) []).2)

end World

end TaskDispatch.Machine
