/-
Signals: events that reset themselves when a waiter is released.

A waiter looks at the flag under the lock and parks while it is down.  Whatever
releases it, a notification that leaves the flag up or the passing of its deadline,
it lowers the flag before it returns, also when both come together.  `Waiter` is
the place of the one waiter.
-/
namespace TaskDispatch.Timer

/-- The flag of a self-resetting event. -/
structure Signal where
  signalled : Bool := false
  deriving DecidableEq

namespace Signal

def set (_ : Signal) : Signal := ⟨true⟩

/-- The place of the waiter. -/
inductive Waiter where
  /-- About to look at the flag. -/
  | looking
  | parked
  /-- Its deadline has passed; it returns as soon as it has the lock. -/
  | expired
  | returned
  deriving DecidableEq

/-- What the waiter does under the lock. -/
def Waiter.look (w : Waiter) (s : Signal) : Signal × Waiter :=
  match w with
  | looking => if s.signalled then (⟨false⟩, returned) else (s, parked)
  | expired => (⟨false⟩, returned)
  | parked => (s, parked)
  | returned => (s, returned)

/-- What a notification does to the waiter. -/
def Waiter.notify : Waiter → Waiter
  | parked => looking
  | w => w

/-- What the clock does to a waiter with a deadline. -/
def Waiter.clock (deadline : Option Nat) (now : Nat) : Waiter → Waiter
  | parked =>
    match deadline with
    | some due => if due ≤ now then expired else parked
    | none => parked
  | w => w

/-- A wait that can end now, because the flag is up or the deadline has passed, and the signal it
leaves behind. -/
def release? (s : Signal) (deadline : Option Nat) (now : Nat) : Option Signal :=
  let (s, w) := Waiter.looking.look s
  let (s, w) := (w.clock deadline now).look s
  if w = .returned then some s else none

end Signal

end TaskDispatch.Timer
