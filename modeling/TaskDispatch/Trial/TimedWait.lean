/-
One timed wait by itself.

The wait's two parties, the worker that runs what is posted, and a request to
cancel are played by the steps of the trial, each by the main thread or by another
one.  A hop posted by hand goes through the same port.
-/
import TaskDispatch.Hop
import TaskDispatch.Port
import TaskDispatch.Timer.Deadline
import TaskDispatch.Value

namespace TaskDispatch.Trial

/-- A step of the trial. -/
inductive WaitStep where
  /-- Arrives at the wait's rendezvous. -/
  | arrive
  /-- Runs the oldest event of the port, on the main thread or on a new one. -/
  | run (elsewhere : Bool)
  /-- Posts a new hop for the same waker. -/
  | post
  | cancel
  /-- Arrives at another rendezvous. -/
  | meet
  | deadline (delay : Timer.Delay)
  | look

/-- The wait, its port, the hops posted by hand behind its own, and what has been seen. -/
structure WaitTrial where
  /-- Whether the wait's token can be cancelled at all. -/
  cancellable : Bool
  requested : Bool := false
  rendezvous : Rendezvous := {}
  other : Rendezvous := {}
  /-- The wait's own hop in front; what a hop wakes is a count. -/
  hops : List (Hop Unit) := [.new ()]
  port : Port Nat := {}
  wakes : Nat := 0

namespace WaitTrial

/-- The number of the main thread. -/
def mainThread : Nat := 0

/-- The instant at which deadlines are taken. -/
def now : Nat := Timer.nanosPerSecond

/-- Runs the oldest event, and answers whether it was a resumption. -/
def runNext (t : WaitTrial) (thread : Nat) : Bool × WaitTrial :=
  match t.port.next? with
  | none => (false, t)
  | some (.wakeUp, port) => (false, { t with port })
  | some (.resume hop, port) =>
    (true, { t with port, hops := t.hops.modify hop (·.land thread), wakes := t.wakes + 1 })

/-- What can be said of a deadline. -/
def judge (delay : Timer.Delay) : Value :=
  let due := delay.deadline now
  .record [
    ("beyond_29_years", .bool (now + (Timer.Delay.ofDays (29 * 365)).total ≤ due)),
    ("not_before_now", .bool (now ≤ due)),
    ("reaches_delay", .bool ((delay.end? now).any (· ≤ due)))]

/-- Does a step and answers what it came to. -/
def step (t : WaitTrial) : WaitStep → Value × WaitTrial
  | .arrive =>
    let (second, rendezvous) := t.rendezvous.arrive
    let port := if second then t.port.post (.resume 0) else t.port
    (.null, { t with rendezvous, port })
  | .run elsewhere =>
    let (ran, t) := t.runNext (if elsewhere then mainThread + 1 else mainThread)
    (.bool ran, t)
  | .post =>
    (.null, { t with hops := t.hops ++ [.new ()], port := t.port.post (.resume t.hops.length) })
  | .cancel => (.null, { t with requested := true })
  | .meet =>
    let (second, other) := t.other.arrive
    (.bool second, { t with other })
  | .deadline delay => (judge delay, t)
  | .look => (.null, t)

/-- Whether the wait is cancelled. -/
def isCancelled (t : WaitTrial) : Bool := t.cancellable && t.requested

/-- Where the wait's own hop has come down, seen from the main thread. -/
def landing (t : WaitTrial) : Landing :=
  (t.hops.head?).elim .pending (·.landing mainThread)

end WaitTrial

end TaskDispatch.Trial
