/-
Hops: moving a suspended task onto a thread that runs a service's events.

A hop is a posted resumption.  The worker that takes it records which thread it
is and then wakes the task.  Whoever polls the task compares: if its own thread
ran the hop the task has arrived, if another thread did the task has to hop again,
and if nobody did the poll was spurious and the task keeps waiting.
-/
namespace TaskDispatch

/-- A resumption on its way through a port; `ω` is the type of wakers. -/
structure Hop (ω : Type) where
  /-- The thread that ran it. -/
  ranOn : Option Nat := none
  /-- Who is to be woken. -/
  waker : ω

/-- Where a hop has come down, seen from one thread. -/
inductive Landing where
  | pending
  | here
  | elsewhere
  deriving DecidableEq

/-- The name of a landing. -/
def Landing.describe : Landing → String
  | pending => "Pending"
  | here => "Here"
  | elsewhere => "Elsewhere"

namespace Hop

variable {ω : Type}

/-- A hop that nobody has run. -/
def new (waker : ω) : Hop ω := { waker }

/-- What a worker does before it wakes the task. -/
def land (h : Hop ω) (thread : Nat) : Hop ω := { h with ranOn := some thread }

/-- Where the hop has come down, seen from `here`. -/
def landing (h : Hop ω) (here : Nat) : Landing :=
  match h.ranOn with
  | none => .pending
  | some thread => if thread = here then .here else .elsewhere

@[simp] theorem landing_new (w : ω) (here : Nat) : (new w).landing here = .pending := rfl

@[simp] theorem landing_land (h : Hop ω) (thread here : Nat) :
    (h.land thread).landing here = if thread = here then .here else .elsewhere := rfl

end Hop

/-- What a poll of a scheduled task does next. -/
inductive HopMove where
  /-- Post a new hop and suspend. -/
  | post
  /-- Keep waiting for the latest hop. -/
  | wait
  /-- Go on: this thread ran the latest hop. -/
  | arrive
  deriving DecidableEq

/-- The move of a poll that sees its latest hop, if any, come down so. -/
def HopMove.of : Option Landing → HopMove
  | some .here => arrive
  | some .pending => wait
  | some .elsewhere => post
  | none => post

/-- Only a hop that the polling thread ran lets the task go on. -/
theorem HopMove.of_eq_arrive_iff (l : Option Landing) : of l = arrive ↔ l = some .here := by
  rcases l with _ | _ | _ | _ <;> simp [of]

/-- A poll leaves the latest hop alone only while nobody has run it. -/
theorem HopMove.of_eq_wait_iff (l : Option Landing) : of l = wait ↔ l = some .pending := by
  rcases l with _ | _ | _ | _ <;> simp [of]

/-- A point where two parties meet: the second to come is told so. -/
structure Rendezvous where
  arrived : Bool := false
  deriving DecidableEq

/-- Arrives, and answers whether the other party was there already. -/
def Rendezvous.arrive (r : Rendezvous) : Bool × Rendezvous := (r.arrived, ⟨true⟩)

end TaskDispatch
