/-
What others do to the timer thread.

A caller arms a timer by pushing it on the inbox, or raises the sweep or the shutdown
flag.  Then it signals the thread; a push does so only if it found the inbox empty.
`Caller` is the place of one caller and `Caller.step` its next atomic step.

A timed wait registers in a fixed order, `errands`.  It has enrolled with its source
by then; if it came too late for that it has the queue swept itself.  Then it arms its
timer, and only when that is done does it arrive at its rendezvous.
-/
import TaskDispatch.Timer.Turn

namespace TaskDispatch.Timer

/-- The place of one caller of the timer thread; `α` is what timers carry. -/
inductive Caller (α : Type) where
  /-- Pushing a timer; if the push found the inbox empty, about to signal. -/
  | arm (pc : Inbox.Push (Entry α))
  /-- About to raise the sweep flag. -/
  | sweep
  /-- About to raise the shutdown flag. -/
  | shutdown
  | signal
  | done

/-- The next atomic step; `spurious` makes the exchange of a push fail for no reason. -/
def Caller.step {α : Type} (spurious : Bool) (c : Caller α) (s : Shared α) : Shared α × Caller α :=
  match c with
  | sweep => (s.requestSweep, signal)
  | shutdown => (s.requestShutdown, signal)
  | arm (.pushed true) | signal => (s.wake, done)
  | arm (.pushed false) | done => (s, done)
  | arm pc =>
    let (inbox, pc) := pc.step spurious s.inbox
    ({ s with inbox }, arm pc)

/-- What a timed wait has to do while it registers. -/
inductive Errand (α : Type) where
  | call (c : Caller α)
  /-- Arrive at the rendezvous with the timer thread. -/
  | arrive

/-- What is left of a registration after the wait has enrolled, which it may have been too late for. -/
def errands {α : Type} (late : Bool) (armed : Entry α) : List (Errand α) :=
  (if late then [.call .sweep] else []) ++ [.call (.arm (.place armed)), .arrive]

end TaskDispatch.Timer
