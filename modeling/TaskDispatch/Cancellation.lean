/-
Cancellation sources and the callbacks registered on their tokens.

A request raises the flag once; the caller that raised it then detaches all
callbacks in one locked step and runs them one after another, outside the lock.
Enrolling checks the flag and inserts in one locked step too, so a callback is
either detached by the request or finds the flag raised and runs at once.

`Request` is the place of one caller in a request and `Request.step` its next
atomic step; running a callback belongs to whoever runs the request.
-/
import TaskDispatch.Slab

namespace TaskDispatch

/-- What the tokens and registrations of a source share; `κ` is the type of callbacks. -/
structure Source (κ : Type) where
  requested : Bool := false
  callbacks : Slab κ := {}

namespace Source

variable {κ : Type}

/-- Raises the flag and answers whether it was raised before. -/
def raise (s : Source κ) : Bool × Source κ := (s.requested, { s with requested := true })

/-- Detaches all callbacks, lowest key first. -/
def detach (s : Source κ) : List κ × Source κ :=
  let (detached, callbacks) := s.callbacks.drain
  (detached, { s with callbacks })

/-- Inserts a callback and answers its key; no key means that the flag is raised and the callback has
to run at once. -/
def enrol (s : Source κ) (callback : κ) : Option Nat × Source κ :=
  if s.requested then (none, s)
  else
    let (key, callbacks) := s.callbacks.insert callback
    (some key, { s with callbacks })

/-- Takes a callback out, if it is still there. -/
def withdraw (s : Source κ) (key : Nat) : Option κ × Source κ :=
  let (callback, callbacks) := s.callbacks.remove? key
  (callback, { s with callbacks })

/-- The form shown to a developer. -/
def describe (s : Source κ) : String :=
  s!"CancellationSource \x7b requested: {s.requested}, registrations: {s.callbacks.len} \x7d"

/-! ### What the flag decides -/

section

variable {s : Source κ} {callback : κ}

theorem enrol_of_requested (h : s.requested = true) : s.enrol callback = (none, s) := by
  rw [enrol, if_pos h]

theorem enrol_of_not_requested (h : s.requested = false) :
    s.enrol callback =
      (some (s.callbacks.insert callback).1,
        { s with callbacks := (s.callbacks.insert callback).2 }) := by
  rw [enrol, if_neg (by simp [h])]

theorem raise_of_requested (h : s.requested = true) : s.raise = (true, s) := by
  obtain ⟨requested, callbacks⟩ := s
  cases h
  rfl

end

/-- The place of one caller of a request. -/
inductive Request (κ : Type) where
  | raise
  | detach
  /-- About to run the first of these. -/
  | running (callbacks : List κ)
  | returned

/-- The next atomic step.  A caller that has callbacks left runs the first one before it goes on with
`Request.afterFirst`. -/
def Request.step (r : Request κ) (s : Source κ) : Source κ × Request κ :=
  match r with
  | raise =>
    let (before, s) := s.raise
    (s, if before then returned else detach)
  | detach =>
    let (callbacks, s) := s.detach
    (s, running callbacks)
  | running [] => (s, returned)
  | running callbacks => (s, running callbacks)
  | returned => (s, returned)

/-- Where the caller goes when the first callback has run. -/
def Request.afterFirst : Request κ → Request κ
  | running (_ :: rest) => running rest
  | r => r

end Source

end TaskDispatch
