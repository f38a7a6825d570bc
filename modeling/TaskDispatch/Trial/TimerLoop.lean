/-
The timer thread's loop by itself.

Timers are pushed on the inbox before the loop starts; the party that waits
for each has arrived already, so that firing posts the timer at once.  Then the
loop runs, some sources are cancelled while it does, and it is shut down.  The
clock stands still while the loop can go on and moves to its deadline when more
posts are expected.
-/
import TaskDispatch.Timer.Deadline
import TaskDispatch.Timer.Turn

namespace TaskDispatch.Trial

open Timer

/-- A timer of the trial: its number, the source that can cancel it, and milliseconds until it is due. -/
structure LoopTimer where
  id : Nat
  source : Nat
  after : Nat

/-- A source to cancel, and how many posts to wait for then. -/
structure LoopPhase where
  source : Nat
  count : Nat

/-- The loop, its clock, the sources that are cancelled, and what has been posted and not yet taken. -/
structure LoopTrial where
  now : Nat := nanosPerSecond
  cancelled : List Nat := []
  shared : Shared LoopTimer := {}
  keeper : Keeper LoopTimer := {}
  posted : List Nat := []

namespace LoopTrial

/-- Pushes a timer and answers whether the list was empty; if it was, the thread is signalled. -/
def arm (t : LoopTrial) (timer : LoopTimer) : Bool × LoopTrial :=
  let due := t.now + timer.after * nanosPerMilli
  let (wasEmpty, inbox) := t.shared.inbox.push ⟨due, timer⟩
  let shared := { t.shared with inbox }
  (wasEmpty, { t with shared := if wasEmpty then shared.wake else shared })

/-- Pushes timers in order. -/
def armAll (t : LoopTrial) : List LoopTimer → List Bool × LoopTrial
  | [] => ([], t)
  | timer :: rest =>
    let (pushed, t) := t.arm timer
    let (others, t) := t.armAll rest
    (pushed :: others, t)

/-- One step of the loop, which fires what it has to serve; none while it is parked or when it has ended. -/
def step? (t : LoopTrial) : Option LoopTrial :=
  match t.keeper.pc, t.keeper.served? with
  | .exited, _ => none
  | .firing .., some (timer, keeper) => some { t with keeper, posted := t.posted ++ [timer.id] }
  | _, some (_, keeper) => some { t with keeper }
  | _, none => do
    let isCancelled (timer : LoopTimer) : Bool := t.cancelled.contains timer.source
    let (shared, keeper) ← t.keeper.step? isCancelled t.now true t.shared
    return { t with shared, keeper }

/-- Runs the loop until it is parked, for at most `fuel` steps. -/
def run : (fuel : Nat) → LoopTrial → LoopTrial
  | 0, t => t
  | fuel + 1, t =>
    match t.step? with
    | none => t
    | some t => run fuel t

/-- Runs the loop until `n` posts are there, moving the clock up to `left` times. -/
def await (fuel n : Nat) : (left : Nat) → LoopTrial → LoopTrial
  | 0, t => t.run fuel
  | left + 1, t =>
    let t := t.run fuel
    if n ≤ t.posted.length then t
    else
      match t.keeper.deadline with
      | none => t
      | some due => await fuel n left { t with now := max t.now due }

/-- Takes the first `n` posts. -/
def takePosts (n : Nat) (t : LoopTrial) : List Nat × LoopTrial :=
  (t.posted.take n, { t with posted := t.posted.drop n })

/-- Cancels a source, has the queue swept, and waits for posts, which are answered in order of number. -/
def phase (fuel timers : Nat) (t : LoopTrial) (p : LoopPhase) : List Nat × LoopTrial :=
  let t := { t with cancelled := p.source :: t.cancelled, shared := t.shared.requestSweep.wake }
  let (ids, t) := (await fuel p.count timers t).takePosts p.count
  (ids.mergeSort, t)

/-- Goes through phases in order. -/
def phases (fuel timers : Nat) (t : LoopTrial) : List LoopPhase → List (List Nat) × LoopTrial
  | [] => ([], t)
  | p :: rest =>
    let (ids, t) := phase fuel timers t p
    let (others, t) := phases fuel timers t rest
    (ids :: others, t)

/-- What the trial shows: what the pushes answered, what was posted in each phase, and whether posts
are left. -/
structure Report where
  pushed : List Bool
  fired : List (List Nat)
  left : Bool

/-- A trial from its beginning to its shutdown. -/
def play (timers : List LoopTimer) (cancelled : List Nat) (sweep shutdownFirst : Bool) (expect : Nat)
    (phaseList : List LoopPhase) : Report :=
  let fuel := 100 + 20 * timers.length
  let (pushed, t) := ({ cancelled } : LoopTrial).armAll timers
  let t := if sweep then { t with shared := t.shared.requestSweep.wake } else t
  let t := if shutdownFirst then { t with shared := t.shared.requestShutdown.wake } else t
  let (first, t) := (await fuel expect timers.length t).takePosts expect
  let (others, t) := phases fuel timers.length t phaseList
  let t := { t with shared := t.shared.requestShutdown.wake }
  let t := t.run fuel
  ⟨pushed, first :: others, !t.posted.isEmpty⟩

end LoopTrial

end TaskDispatch.Trial
