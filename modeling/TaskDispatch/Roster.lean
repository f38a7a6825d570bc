/-
Who runs a service's events, what keeps it running, and how it is told to stop.

The roster is one word: the stop flag and the number of callers inside the event
loop.  A stop raises the flag and reads the number in the same atomic step, and
then posts one wake-up for each of them.  A caller that takes a wake-up looks at
the flag: raised, it leaves; else the wake-up is stale and is thrown away.  Callers
that come while the flag is raised are refused.

`Stop` and `EventLoop` are the places of one caller, and their `step`s the next
atomic step.  Running a taken resumption belongs to whoever runs the loop.
-/
import TaskDispatch.Error
import TaskDispatch.Port

namespace TaskDispatch

/-- The stop flag and the number of callers inside the event loop. -/
structure Roster where
  stopRequested : Bool := false
  active : Nat := 0
  deriving DecidableEq

namespace Roster

/-- Raises the stop flag.  The caller that raised it is told how many wake-ups it owes. -/
def requestStop (r : Roster) : Option Nat × Roster :=
  (if r.stopRequested then none else some r.active, { r with stopRequested := true })

/-- Lowers the stop flag, and then refuses if a caller is still inside. -/
def reset (r : Roster) : Except Panic Unit × Roster :=
  (if r.active = 0 then .ok ()
    else .error (.text s!"reset() called while {r.active} thread(s) are running the event loop"),
    { r with stopRequested := false })

/-- Enters the event loop, unless the flag is raised. -/
def enter? (r : Roster) : Option Roster :=
  if r.stopRequested then none else some { r with active := r.active + 1 }

/-- Leaves the event loop. -/
def leave (r : Roster) : Roster := { r with active := r.active - 1 }

/-- Only a raised flag refuses a caller. -/
theorem enter?_eq_none_iff (r : Roster) : r.enter? = none ↔ r.stopRequested = true := by
  unfold enter?
  split <;> simp_all

/-- Whoever enters and leaves changes nothing. -/
theorem leave_of_enter? {r r' : Roster} (h : r.enter? = some r') : r'.leave = r := by
  unfold enter? at h
  split at h
  · cases h
  · cases h; rfl

end Roster

/-- The units of work that keep a service running, as a machine word that wraps. -/
structure Workload where
  count : UInt64 := 0
  deriving DecidableEq

namespace Workload

/-- A unit of work is there. -/
def start (l : Workload) : Workload := ⟨l.count + 1⟩

/-- A unit of work is done.  It answers whether that was the last one, which has to stop the service. -/
def finish (l : Workload) : Bool × Workload := (l.count == 1, ⟨l.count - 1⟩)

end Workload

/-- The place of one caller that stops a service. -/
inductive Stop where
  | raise
  /-- Still owes this many wake-ups. -/
  | posting (left : Nat)
  | returned
  deriving DecidableEq

/-- The next atomic step. -/
def Stop.step {ω : Type} (pc : Stop) (r : Roster) (p : Port ω) : Roster × Port ω × Stop :=
  match pc with
  | raise =>
    match r.requestStop with
    | (none, r) => (r, p, returned)
    | (some owed, r) => (r, p, posting owed)
  | posting 0 => (r, p, returned)
  | posting (left + 1) => (r, p.post .wakeUp, posting left)
  | returned => (r, p, returned)

/-- How a caller runs events: whether it waits for one, and how many it takes at most. -/
structure EventMode where
  wait : Bool
  limit : Option Nat

namespace EventMode

/-- Whether a caller that has run `n` resumptions may take another. -/
def admits (m : EventMode) (n : Nat) : Bool :=
  match m.limit with
  | none => true
  | some limit => n < limit

end EventMode

/-- The place of one caller in the event loop; `ω` is the type of wakers. -/
inductive EventLoop (ω : Type) where
  /-- About to enter. -/
  | enter
  /-- Inside, about to take an event; it has run `n` resumptions. -/
  | take (n : Nat)
  /-- Took a wake-up and is about to look at the stop flag. -/
  | recheck (n : Nat)
  /-- Took a resumption and runs it. -/
  | run (w : ω) (n : Nat)
  /-- About to leave. -/
  | leave (n : Nat)
  | returned (n : Nat)

namespace EventLoop

variable {ω : Type}

/-- The next atomic step; none while the caller waits at an empty port. -/
def step? (m : EventMode) (pc : EventLoop ω) (r : Roster) (p : Port ω) :
    Option (Roster × Port ω × EventLoop ω) :=
  match pc with
  | enter =>
    match r.enter? with
    | none => some (r, p, returned 0)
    | some r => some (r, p, take 0)
  | take n =>
    if m.admits n then
      match p.next? with
      | some (.wakeUp, p) => some (r, p, recheck n)
      | some (.resume w, p) => some (r, p, run w n)
      | none => if m.wait then none else some (r, p, leave n)
    else some (r, p, leave n)
  | recheck n => some (r, p, if r.stopRequested then leave n else take n)
  | leave n => some (r.leave, p, returned n)
  | run w n => some (r, p, run w n)
  | returned n => some (r, p, returned n)

/-- Where the caller goes when the resumption it took has run. -/
def afterRun : EventLoop ω → EventLoop ω
  | run _ n => take (n + 1)
  | pc => pc

end EventLoop

end TaskDispatch
