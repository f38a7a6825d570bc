/-
Latches: events that stay set until they are reset.

A waiter looks at the flag under the lock.  Set, it returns; else it parks.  Setting
notifies every parked waiter, and a notified waiter takes the lock back and looks
at the flag again.  `Waiter` is the place of one waiter.
-/
namespace TaskDispatch

/-- The flag of a manually reset event. -/
structure Latch where
  isSet : Bool := false
  deriving DecidableEq

namespace Latch

def set (_ : Latch) : Latch := ⟨true⟩

def reset (_ : Latch) : Latch := ⟨false⟩

/-- The place of one waiter. -/
inductive Waiter where
  /-- About to look at the flag. -/
  | looking
  | parked
  | returned
  deriving DecidableEq

/-- What a waiter does under the lock: it returns if the flag is set, else it parks. -/
def Waiter.look (l : Latch) : Waiter → Waiter
  | looking => if l.isSet then returned else parked
  | w => w

/-- What a notification does to a waiter. -/
def Waiter.notify : Waiter → Waiter
  | parked => looking
  | w => w

/-- Setting the flag with waiters about: every parked one is notified. -/
def setWith (l : Latch) (waiters : List Waiter) : Latch × List Waiter :=
  (l.set, waiters.map Waiter.notify)

end Latch

end TaskDispatch
