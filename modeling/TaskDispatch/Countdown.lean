/-
The countdown of a fan-in: which of `n` completions and one awaiter comes last.

It starts at `n`, and every party takes one off, so `n + 1` parties count down to
one below zero: the party that finds zero is the last.  The awaiter leaves its
waker before it counts, so that a completion which comes last finds it.  The count
is a machine word and wraps.

`Party` is the place of one party and `Party.step` its next atomic step.  Each poll of
the fan-in begins with a glance: the first starts the inputs and counts the awaiter in,
the later ones look whether the countdown is complete.
-/
namespace TaskDispatch

/-- What the parties of a fan-in share; `ω` is the type of wakers. -/
structure Countdown (ω : Type) where
  count : UInt64
  waker : Option ω := none
  complete : Bool := false

namespace Countdown

variable {ω : Type}

/-- A countdown for `n` completions. -/
def new (n : Nat) : Countdown ω := { count := UInt64.ofNat n }

def isReady (c : Countdown ω) : Bool := c.complete

/-- What a poll of the fan-in goes on with. -/
inductive Glance where
  /-- There are no inputs: it is ready at once. -/
  | nothing
  /-- It starts the inputs and counts the awaiter in. -/
  | start
  /-- It takes the outputs. -/
  | collect
  | pending
  deriving DecidableEq

/-- What a poll goes on with that finds the fan-in started or not, with so many inputs, and its countdown
complete or not. -/
def glance (started : Bool) (inputs : Nat) (ready : Bool) : Glance :=
  if started then
    if ready then .collect else .pending
  else if inputs = 0 then .nothing
  else .start

/-- Takes one off and tells whether the count was zero. -/
def countDown (c : Countdown ω) : Bool × Countdown ω :=
  (c.count == 0, { c with count := c.count - 1 })

/-- The place of one party. -/
inductive Party (ω : Type) where
  /-- A completion, about to count. -/
  | arrive
  /-- A completion that came last, about to announce it. -/
  | announce
  /-- The same, about to take the waker. -/
  | collect
  /-- The same, about to wake the awaiter. -/
  | wake (w : ω)
  /-- A completion that is done. -/
  | left
  /-- The awaiter, about to leave its waker. -/
  | register (w : ω)
  /-- The awaiter, about to count. -/
  | enlist
  /-- The awaiter, which came last, about to announce it. -/
  | claim
  /-- The awaiter has to suspend. -/
  | suspended
  /-- The awaiter goes on at once. -/
  | proceeds
  deriving DecidableEq

namespace Party

/-- The next atomic step.  At `wake`, `left`, `suspended` and `proceeds` there is none. -/
def step (p : Party ω) (c : Countdown ω) : Countdown ω × Party ω :=
  match p with
  | arrive =>
    let (last, c) := c.countDown
    (c, if last then announce else left)
  | announce => ({ c with complete := true }, collect)
  | collect =>
    match c.waker with
    | some w => ({ c with waker := none }, wake w)
    | none => (c, left)
  | register w => ({ c with waker := some w }, enlist)
  | enlist =>
    let (last, c) := c.countDown
    (c, if last then claim else suspended)
  | claim => ({ c with complete := true }, proceeds)
  | wake w => (c, wake w)
  | left => (c, left)
  | suspended => (c, suspended)
  | proceeds => (c, proceeds)

/-- All steps of one party with nobody in between: no party takes more than three. -/
def run (p : Party ω) (c : Countdown ω) : Countdown ω × Party ω :=
  let (c, p) := p.step c
  let (c, p) := p.step c
  p.step c

end Party

end Countdown

end TaskDispatch
