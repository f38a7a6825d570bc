/-
Steps on gates.

Waking takes the wakers off the list before the first of them is woken, so that a
body which comes back to the gate meanwhile waits for the next time.  Waking copies
leaves the list as it is.
-/
import TaskDispatch.Machine.Steps.Tasks

namespace TaskDispatch.Machine.World

open Scenario

/-- A step on a gate; none while it waits for wakers. -/
def onGate (w : World) (name : String) (act : GateAct) : Move :=
  let g := w.gateOf name
  let count := Value.nat g.wakers.length
  match act with
  | .wake => (w.putGate name { g with wakers := [] }).runs (.wakeAll g.wakers) [.answering count]
  | .unlock => (w.putGate name ⟨true, []⟩).runs (.wakeAll g.wakers) [.answering count]
  | .wakeRef =>
    (g.wakers.foldl holdWaker w).runs (.wakeEach g.wakers)
      [.losing (g.wakers.map .waker), .answering count]
  | .dropWakers => (w.putGate name { g with wakers := [] }).answersLosing (g.wakers.map .waker) count
  | .close => (w.putGate name { g with isOpen := false }).answers .null
  | .waiting => w.answers count
  | .untilWaiting n => w.runs (.awaitGate name n) [.answering .null]

end TaskDispatch.Machine.World
