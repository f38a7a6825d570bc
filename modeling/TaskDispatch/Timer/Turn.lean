/-
The timer thread's loop.

What the thread shares with others are the inbox, the sweep flag, the
shutdown flag and its signal (`Shared`).  Its own are the queue and the place in
the loop (`Keeper`, `Pc`).  A turn looks for shutdown, swaps the sweep flag and
sweeps a non-empty queue, reads the clock, detaches the inbox and fires or
enqueues each of its timers, reads the clock again and fires what is due, and parks
until it is signalled or the earliest timer is due.  A timer fires by being handed
to whoever runs the loop, at `firing`.  On shutdown every timer left is abandoned.

A sweep does what `Queue.removeCancelled` does, one question a step: a timer can be
cancelled while the sweep is at work, before or after its turn to be asked.

`step?` is the next atomic step; a parked thread has none until it is notified or
its deadline has passed, and a notification counts first.  Whether a timer is
cancelled is asked when its turn comes, of `isCancelled`; what the clock shows is
`now`; and `room` says whether the queue's heap can take another timer.
-/
import TaskDispatch.Timer.Inbox
import TaskDispatch.Timer.Queue
import TaskDispatch.Timer.Signal

namespace TaskDispatch.Timer

/-- What the timer thread shares with those that arm, cancel and shut down. -/
structure Shared (α : Type) where
  inbox : Inbox (Entry α) := {}
  sweepRequested : Bool := false
  shutdownRequested : Bool := false
  signal : Signal := {}

namespace Shared

variable {α : Type}

/-- The first step of a request to sweep. -/
def requestSweep (s : Shared α) : Shared α := { s with sweepRequested := true }

/-- The first step of a shutdown. -/
def requestShutdown (s : Shared α) : Shared α := { s with shutdownRequested := true }

/-- The last step of both, and of a push that found the inbox empty. -/
def wake (s : Shared α) : Shared α := { s with signal := s.signal.set }

end Shared

/-- The place of the timer thread in its loop. -/
inductive Pc (α : Type) where
  /-- About to look for shutdown. -/
  | shutdown
  /-- About to swap the sweep flag. -/
  | sweep
  /-- About to ask the first of the heap's timers that are left; those asked before stay or go. -/
  | siftHeap (kept gone rest : List (Entry α))
  /-- About to ask the first of the overflow list's timers that are left; those that stay are back. -/
  | siftOverflow (rest : List (Entry α))
  /-- About to read the clock. -/
  | clock
  /-- About to detach the inbox; the clock showed `now`. -/
  | detach (now : Nat)
  /-- About to take the first node of the detached chain. -/
  | sort (now : Nat) (chain : Option Nat)
  /-- About to read the clock again. -/
  | clockAgain
  /-- About to take the next due timer. -/
  | dequeue (now : Nat)
  /-- Waiting for the signal or for the earliest timer. -/
  | waiting (w : Signal.Waiter)
  /-- About to fire the first of these timers and then to go on. -/
  | firing (timers : List α) (after : Pc α)
  /-- About to abandon the queue. -/
  | abandonQueue
  /-- About to detach the inbox for the last time. -/
  | abandonIntake
  /-- About to abandon the first node of the detached chain. -/
  | abandonChain (chain : Option Nat)
  /-- About to let go of the first of these timers and then to go on. -/
  | dropping (timers : List α) (after : Pc α)
  | exited

/-- What the timer thread keeps to itself. -/
structure Keeper (α : Type) where
  queue : Queue α := {}
  pc : Pc α := .shutdown

namespace Keeper

variable {α : Type}

/-- Until when the thread waits at the end of a turn. -/
def deadline (k : Keeper α) : Option Nat := k.queue.earliest?

/-- The next atomic step; none while the thread is parked.  At `firing` and `dropping` with timers left
the caller serves the first of them and goes on with `served`. -/
def step? (isCancelled : α → Bool) (now : Nat) (room : Bool) (k : Keeper α) (s : Shared α) :
    Option (Shared α × Keeper α) :=
  match k.pc with
  | .shutdown => some (s, { k with pc := if s.shutdownRequested then .abandonQueue else .sweep })
  | .sweep =>
    let s' := { s with sweepRequested := false }
    if s.sweepRequested && !k.queue.isEmpty then
      some (s', { queue := { k.queue with heap := [] }, pc := .siftHeap [] [] k.queue.heap })
    else some (s', { k with pc := .clock })
  | .siftHeap kept gone (e :: rest) =>
    if isCancelled e.item then some (s, { k with pc := .siftHeap kept (gone ++ [e]) rest })
    else some (s, { k with pc := .siftHeap (kept ++ [e]) gone rest })
  | .siftHeap kept gone [] =>
    let pc := .firing (gone.map (·.item)) (.siftOverflow k.queue.overflow)
    some (s, { queue := { k.queue with heap := kept, overflow := [] }, pc })
  | .siftOverflow (e :: rest) =>
    if isCancelled e.item then
      let queue := { k.queue with overflowLen := k.queue.overflowLen - 1 }
      some (s, { queue, pc := .firing [e.item] (.siftOverflow rest) })
    else
      let queue := { k.queue with overflow := k.queue.overflow ++ [e] }
      some (s, { queue, pc := .siftOverflow rest })
  | .siftOverflow [] => some (s, { k with pc := .clock })
  | .clock => some (s, { k with pc := .detach now })
  | .detach now =>
    let (chain, inbox) := s.inbox.detach
    some ({ s with inbox }, { k with pc := .sort now chain })
  | .sort now chain =>
    match s.inbox.next? chain with
    | none => some (s, { k with pc := .clockAgain })
    | some (e, chain, inbox) =>
      let s := { s with inbox }
      if e.due ≤ now || isCancelled e.item then
        some (s, { k with pc := .firing [e.item] (.sort now chain) })
      else some (s, { queue := k.queue.enqueue room e, pc := .sort now chain })
  | .clockAgain => some (s, { k with pc := .dequeue now })
  | .dequeue now =>
    match k.queue.dequeue? now with
    | none => some (s, { k with pc := .waiting .looking })
    | some (handed, queue) => some (s, { queue, pc := .firing [handed.entry.item] (.dequeue now) })
  | .waiting .parked =>
    let w := if s.signal.signalled then Signal.Waiter.parked.notify
      else Signal.Waiter.parked.clock k.deadline now
    if w = .parked then none else some (s, { k with pc := .waiting w })
  | .waiting .returned => some (s, { k with pc := .shutdown })
  | .waiting w =>
    let (signal, w) := w.look s.signal
    some ({ s with signal }, { k with pc := .waiting w })
  | .firing [] after => some (s, { k with pc := after })
  | .firing timers after => some (s, { k with pc := .firing timers after })
  | .abandonQueue =>
    let (gone, queue) := k.queue.drain
    some (s, { queue, pc := .dropping (gone.map (·.entry.item)) .abandonIntake })
  | .abandonIntake =>
    let (chain, inbox) := s.inbox.detach
    some ({ s with inbox }, { k with pc := .abandonChain chain })
  | .abandonChain chain =>
    match s.inbox.next? chain with
    | none => some (s, { k with pc := .exited })
    | some (e, chain, inbox) =>
      some ({ s with inbox }, { k with pc := .dropping [e.item] (.abandonChain chain) })
  | .dropping [] after => some (s, { k with pc := after })
  | .dropping timers after => some (s, { k with pc := .dropping timers after })
  | .exited => some (s, { k with pc := .exited })

/-- The timer that the thread is about to fire or to let go of. -/
def served? (k : Keeper α) : Option (α × Keeper α) :=
  match k.pc with
  | .firing (a :: rest) after => some (a, { k with pc := .firing rest after })
  | .dropping (a :: rest) after => some (a, { k with pc := .dropping rest after })
  | _ => none

end Keeper

end TaskDispatch.Timer
